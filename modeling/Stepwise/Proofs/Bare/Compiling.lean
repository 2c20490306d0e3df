import Stepwise.Proofs.Bare.Making
import Stepwise.Proofs.Bare.Reading

/-!
# What layout and comments decide

Nothing but the lines and places that a module notes. Source texts with the same tokens, comments
and places apart, leave the same bare program, so each stage of compilation comes to results that
leave the same, or stops for both with faults of one kind (`layout_irrelevant`).
-/

set_option autoImplicit false

namespace Stepwise

open Diagnosed

variable {σ : Type}

/-- Two stages that come to what is left of the same leave the same. -/
theorem Diagnosed.Alike.meet {α β γ : Type} {image : α → γ} {image' : β → γ} {x : Diagnosed α}
    {y : Diagnosed β} {z : Diagnosed γ} (h : Alike (fun a c => c = image a) x z)
    (h' : Alike (fun b c => c = image' b) y z) :
    Alike (fun a b => image a = image' b) x y :=
  Related.meet (fun hd he => he.symm.trans hd) h h'

/-- Programs that leave the same are checked alike. -/
theorem checkProgram_alike {p p' : Program} (h : p.bare = p'.bare) (host : HostTable σ) :
    Alike (fun c c' => c.bare = c'.bare) (checkProgram p.records p.allFunctions host)
      (checkProgram p'.records p'.allFunctions host) := by
  have hcheck (p : Program) :
      Alike (fun a b => b = a.bare) (checkProgram p.records p.allFunctions host)
      (checkProgram p.bare.records p.bare.allFunctions (host.map HostFunction.bare)) :=
    checkProgram_bare p.records p.allFunctions host
  have hcheck' := hcheck p'
  rw [← h] at hcheck'
  exact (hcheck p).meet hcheck'

/-- Checked programs that leave the same have code that leaves the same. -/
theorem emitModule_alike {p p' : CheckedProgram σ} (h : p.bare = p'.bare) :
    Alike (fun m m' => m.bare = m'.bare) (emitModule p.functions p.environment)
      (emitModule p'.functions p'.environment) := by
  have hmake := emitModule_bare p'
  rw [← h] at hmake
  exact (emitModule_bare p).meet hmake

/-- **Layout and comments are irrelevant.** Let two source texts have the same tokens up to comments
and places. Then either both compile, to modules with the same functions, registry and host
functions up to lines and places, or neither does, and both stop with faults of one kind. -/
theorem layout_irrelevant {source source' : String} {ts ts' : List SourceToken}
    (hts : tokens source = .ok ts) (hts' : tokens source' = .ok ts')
    (hsame : uncommented ts = uncommented ts') (host : HostTable σ) :
    (∃ module module', compile source host = .ok module ∧ compile source' host = .ok module' ∧
        module.bare = module'.bare) ∨
      ∃ d d', compile source host = .error d ∧ compile source' host = .error d' ∧
        d.report.kind = d'.report.kind := by
  have hread := Program.ofTokens_bare ts'
  rw [bareTokens_eq, ← hsame, ← bareTokens_eq] at hread
  have hsource : Program.ofSource source = Program.ofTokens ts := by rw [Program.ofSource, hts]; rfl
  have hsource' : Program.ofSource source' = Program.ofTokens ts' := by
    rw [Program.ofSource, hts']; rfl
  have hprograms := (Program.ofTokens_bare ts).meet hread
  rw [← hsource, ← hsource'] at hprograms
  have hcompiled :
      Alike (fun m m' => m.bare = m'.bare) (compile source host) (compile source' host) :=
    hprograms.bind fun _ _ hbare => (checkProgram_alike hbare host).bind fun _ _ => emitModule_alike
  rcases hcompiled.results with ⟨module, module', hm, hm', hbare⟩ | ⟨d, d', hd, hd', hkind⟩
  · exact .inl ⟨module, module', hm, hm', hbare⟩
  · exact .inr ⟨d, d', hd, hd', hkind.symm⟩

/-- A function that ends with a `return`. -/
def plainSource : String := "fun f(a: boolean)\n  return\nend\nf(true)\n"

/-- The same function on fewer lines, with comments inside its head and behind its `return`. -/
def commentedSource : String :=
  "fun f( # head\n a: boolean) return # over\n # and out\nend f(true) # called"

theorem layout_irrelevant_commented : ∃ (ts ts' : List SourceToken) (module module' : Module Unit),
    tokens plainSource = .ok ts ∧ tokens commentedSource = .ok ts' ∧
      uncommented ts = uncommented ts' ∧
      compile plainSource [] = .ok module ∧ compile commentedSource [] = .ok module' ∧
      module.bare = module'.bare := by
  have htokens : (tokens plainSource).map uncommented = (tokens commentedSource).map
    uncommented := by decide +kernel
  have hcompile : (compile plainSource ([] : HostTable Unit)).isOk = true := by decide +kernel
  have hread : (tokens plainSource).isOk = true := by decide +kernel
  obtain ⟨ts, hts⟩ := isOk_iff.mp hread
  rw [hts, Except.map] at htokens
  obtain ⟨ts', hts', hsame⟩ := map_eq_ok.mp htokens.symm
  rcases layout_irrelevant hts hts' hsame.symm ([] : HostTable Unit) with
    ⟨module, module', hm, hm', hbare⟩ | ⟨d, d', hd, -⟩
  · exact ⟨ts, ts', module, module', hts, hts', hsame.symm, hm, hm', hbare⟩
  · rw [hd] at hcompile
    cases hcompile

end Stepwise
