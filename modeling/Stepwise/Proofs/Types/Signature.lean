import Stepwise.Proofs.Program.Names
import Stepwise.Types.Ty

/-!
# Reading call signatures back

A call signature is one text, and calls are resolved by comparing such texts. For types whose names
are words the text can be read back: what stands behind its last opening parenthesis are the names
of the types, and no name of a type holds a comma. So two functions with one call signature have one
name and the same parameters, `callSignature_injective`. The name itself may be any text.
-/

set_option autoImplicit false

namespace Stepwise

/-- A type that a program can name: a built-in type, or a record whose name is a word and not that
of a built-in type. -/
def Ty.Nameable : Ty → Prop
  | .record name => IsWord name ∧ ∀ t ∈ Ty.builtIn, t.name ≠ name
  | _ => True

/-! ## Names of types -/

theorem isWordPart_of_small {c : Char} (ha : 0x61 ≤ c.toNat) (hz : c.toNat ≤ 0x7A) :
    Text.isWordPart c = true := by
  obtain ⟨rest, hranges⟩ : ∃ rest, Text.alphabeticRanges = (0x41, 0x5A) :: (0x61, 0x7A) :: rest :=
    ⟨_, rfl⟩
  have hcapital : ¬ c.toNat < 0x41 := by omega
  have hsmall : ¬ c.toNat < 0x61 := by omega
  simp [Text.isWordPart, Text.isAlphabetic, hranges, Text.Ranges.has, hcapital, hsmall, hz]

theorem isWord_builtIn {t : Ty} (ht : t ∈ Ty.builtIn) : IsWord t.name := by
  have hsmall : ∀ t ∈ Ty.builtIn, t.name.toList ≠ [] ∧ ∀ c ∈ t.name.toList, 0x61 ≤ c.toNat ∧
      c.toNat ≤ 0x7A := by
    simp [Ty.builtIn, Ty.name]
  obtain ⟨hne, hletters⟩ := hsmall t ht
  refine ⟨hne, ?_⟩
  intro c hc
  obtain ⟨ha, hz⟩ := hletters c hc
  exact isWordPart_of_small ha hz

theorem Ty.mem_builtIn_or_record (t : Ty) : t ∈ Ty.builtIn ∨ ∃ name, t = .record name := by
  cases t with
  | record name => exact Or.inr ⟨name, rfl⟩
  | _ => exact Or.inl (by decide)

theorem Ty.Nameable.isWord {t : Ty} (h : t.Nameable) : IsWord t.name := by
  rcases t.mem_builtIn_or_record with ht | ⟨name, rfl⟩
  · exact isWord_builtIn ht
  · exact h.1

/-- A type that can be named is known by its name. -/
theorem Ty.Nameable.eq_of_name_eq {s t : Ty} (hs : s.Nameable) (ht : t.Nameable)
    (h : s.name = t.name) : s = t := by
  rcases s.mem_builtIn_or_record with hs' | ⟨m, rfl⟩
  · rcases t.mem_builtIn_or_record with ht' | ⟨n, rfl⟩
    · revert hs' ht' h
      cases s <;> cases t <;> simp [Ty.name, Ty.builtIn]
    · exact absurd h (ht.2 s hs')
  · rcases t.mem_builtIn_or_record with ht' | ⟨n, rfl⟩
    · exact absurd h.symm (hs.2 t ht')
    · exact congrArg Ty.record h

/-- No sign is part of a word. -/
theorem IsWord.not_mem {name : String} (h : IsWord name) {c : Char}
    (hc : Text.isWordPart c = false) :
    c ∉ name.toList := by
  intro hmem
  rw [h.2 c hmem] at hc
  cases hc

/-! ## Lists of names -/

/-- A text is cut at its last opening sign in one way only. -/
theorem append_cons_inj_of_not_mem {α : Type} {x : α} {as bs cs ds : List α} (hb : x ∉ bs)
    (hd : x ∉ ds) (h : as ++ x :: bs = cs ++ x :: ds) : as = cs ∧ bs = ds := by
  rcases List.append_eq_append_iff.mp h with ⟨es, rfl, hes⟩ | ⟨es, rfl, hes⟩
  · cases es with
    | nil => exact ⟨(List.append_nil _).symm, (List.cons.inj hes).2⟩
    | cons e es =>
        have hbs : bs = es ++ x :: ds := (List.cons.inj hes).2
        exact absurd (by simp [hbs]) hb
  · cases es with
    | nil => exact ⟨List.append_nil _, (List.cons.inj hes).2.symm⟩
    | cons e es =>
        have hds : ds = es ++ x :: bs := (List.cons.inj hes).2
        exact absurd (by simp [hds]) hd

/-- Texts that are not empty and hold no comma are read back from the list that they are written
as. -/
theorem intercalate_comma_inj {as bs : List (List Char)} (ha : ∀ a ∈ as, a ≠ [] ∧ ',' ∉ a)
    (hb : ∀ b ∈ bs, b ≠ [] ∧ ',' ∉ b) (h : [','].intercalate as = [','].intercalate bs) :
    as = bs := by
  have nil_of {ls : List (List Char)} (hl : ∀ l ∈ ls, l ≠ [] ∧ ',' ∉ l)
      (hn : [','].intercalate ls = []) :
      ls = [] := by
    by_contra hne
    have hsplit := List.splitOn_intercalate ',' (fun l hmem => (hl l hmem).2) hne
    rw [hn] at hsplit
    have hmem : ([] : List Char) ∈ ls := by simp [← hsplit]
    exact (hl [] hmem).1 rfl
  by_cases hnil : as = []
  · subst hnil
    exact (nil_of hb (by simpa using h.symm)).symm
  by_cases hnil' : bs = []
  · subst hnil'
    exact nil_of ha (by simpa using h)
  calc as = ([','].intercalate as).splitOn ',' :=
        (List.splitOn_intercalate ',' (fun a hmem => (ha a hmem).2) hnil).symm
    _ = ([','].intercalate bs).splitOn ',' := by rw [h]
    _ = bs := List.splitOn_intercalate ',' (fun b hmem => (hb b hmem).2) hnil'

/-! ## Call signatures -/

/-- The characters of a call signature. -/
theorem toList_callSignature (name : String) (params : List Ty) :
    (callSignature name params).toList =
      name.toList ++ '(' :: ([','].intercalate (params.map fun t => t.name.toList) ++ [')']) := by
  simp [callSignature, applied, String.toList_intercalate, Function.comp_def]

theorem not_mem_intercalate_names {params : List Ty} (h : ∀ t ∈ params, t.Nameable) {c : Char}
    (hc : Text.isWordPart c = false) (hcomma : c ≠ ',') :
    c ∉ [','].intercalate (params.map fun t => t.name.toList) := by
  induction params with
  | nil => simp
  | cons t rest ih =>
      have ht : c ∉ t.name.toList := (h t List.mem_cons_self).isWord.not_mem hc
      have hrest := ih fun s hs => h s (List.mem_cons_of_mem _ hs)
      cases rest with
      | nil => simpa using ht
      | cons s others =>
          rw [List.map_cons, List.map_cons, List.intercalate_cons_cons]
          simp only [List.mem_append, List.mem_singleton, not_or]
          exact ⟨⟨ht, hcomma⟩, hrest⟩

/-- **A call signature determines the name and the types of the parameters.** -/
theorem callSignature_injective {m n : String} {ss ts : List Ty} (hs : ∀ s ∈ ss, s.Nameable)
    (ht : ∀ t ∈ ts, t.Nameable) (h : callSignature m ss = callSignature n ts) :
    m = n ∧ ss = ts := by
  have hlist := congrArg String.toList h
  rw [toList_callSignature, toList_callSignature] at hlist
  have hparen : Text.isWordPart '(' = false := by decide +kernel
  have hcomma : Text.isWordPart ',' = false := by decide +kernel
  have free {us : List Ty} (hu : ∀ u ∈ us, u.Nameable) :
      '(' ∉ [','].intercalate (us.map fun t => t.name.toList) ++ [')'] := by
    simpa using not_mem_intercalate_names hu hparen (by decide)
  have names {us : List Ty} (hu : ∀ u ∈ us, u.Nameable) :
      ∀ l ∈ us.map (fun t => t.name.toList), l ≠ [] ∧ ',' ∉ l := by
    intro l hl
    obtain ⟨u, hmem, rfl⟩ := List.mem_map.mp hl
    exact ⟨(hu u hmem).isWord.1, (hu u hmem).isWord.not_mem hcomma⟩
  obtain ⟨hname, htail⟩ := append_cons_inj_of_not_mem (free hs) (free ht) hlist
  refine ⟨String.toList_inj.mp hname, ?_⟩
  have hnames := intercalate_comma_inj (names hs) (names ht) (List.append_cancel_right htail)
  clear htail hlist h hname
  induction ss generalizing ts with
  | nil => simpa using hnames.symm
  | cons s ss ih =>
      cases ts with
      | nil => simp at hnames
      | cons t ts =>
          rw [List.map_cons, List.map_cons, List.cons.injEq] at hnames
          have hst : s = t := (hs s List.mem_cons_self).eq_of_name_eq (ht t List.mem_cons_self)
            (String.toList_inj.mp hnames.1)
          rw [hst, ih (fun u hu => hs u (List.mem_cons_of_mem _ hu))
            (fun u hu => ht u (List.mem_cons_of_mem _ hu)) hnames.2]

end Stepwise
