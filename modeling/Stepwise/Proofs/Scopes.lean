import Mathlib.Data.List.Induction
import Mathlib.Data.List.Nodup
import Stepwise.Scopes

/-!
# Scopes under all operations

A function's scopes are made from the initial ones by opening blocks, closing them and declaring
names, in any order. `accounted` follows an arbitrary sequence of these operations from the start
and says what the scopes are behind it: which slots were handed out, which blocks are open, and that
each open block holds exactly what was declared in it. It rests on one lemma for each operation.
`visible_block` says that a block, once closed, has changed nothing of what is visible.
-/

set_option autoImplicit false

namespace Stepwise

/-! ## Operations -/

/-- What is done with the scopes of a function. -/
inductive ScopeOp where
  | push
  | pop
  | declare (name : Ident) (ty : Ty)
  deriving Repr, DecidableEq

namespace ScopeOp

/-- How many blocks are open inside the function's own one before and after an operation. -/
def deepen : Nat → ScopeOp → Nat
  | d, push => d + 1
  | d, pop => d - 1
  | d, declare .. => d

/-- How many blocks are open inside the function's own one after operations. Closing more blocks
than were opened counts for nothing. -/
def depth (ops : List ScopeOp) : Nat := ops.foldl deepen 0

theorem depth_concat (ops : List ScopeOp) (op : ScopeOp) :
    depth (ops ++ [op]) = deepen (depth ops) op := by
  rw [depth, List.foldl_append]
  rfl

/-- Operations that close exactly the blocks that they open. -/
inductive Balanced : List ScopeOp → Prop where
  | nil : Balanced []
  | declare {ops : List ScopeOp} (name : Ident) (ty : Ty) (hops : Balanced ops) :
      Balanced (declare name ty :: ops)
  | block {inner ops : List ScopeOp} (hinner : Balanced inner) (hops : Balanced ops) :
      Balanced (push :: (inner ++ pop :: ops))

end ScopeOp

namespace Scopes

/-- The scopes after an operation, be it a declaration that fails. -/
def perform (s : Scopes) : ScopeOp → Scopes
  | .push => s.push
  | .pop => s.pop
  | .declare name ty => (s.declare name ty).2

/-- The scopes after operations. -/
def performAll (s : Scopes) (ops : List ScopeOp) : Scopes := ops.foldl perform s

/-- The slot that an operation hands out, if it is a declaration that succeeds. -/
def slot? (s : Scopes) : ScopeOp → Option Nat
  | .push | .pop => none
  | .declare name ty => (s.declare name ty).1.toOption

/-- The slots that operations hand out, one after the other. -/
def slots (s : Scopes) : List ScopeOp → List Nat
  | [] => []
  | op :: ops => (s.slot? op).toList ++ (s.perform op).slots ops

/-- The open blocks, the function's own one first. -/
def opened (s : Scopes) : List (List Symbol) := (s.innermost :: s.enclosing).reverse

/-- Operations have declared a symbol in a block that is still open, with so many blocks around it
inside the function's own one: since then there were never fewer. -/
def StillOpen (ops : List ScopeOp) (level : Nat) (sym : Symbol) : Prop :=
  ∃ before name ty later after slot, ops = before ++ .declare name ty :: later ∧
    (initial.performAll before).declare name ty = (.ok slot, after) ∧
    sym = ⟨name.name, ty, slot, name.span⟩ ∧
    ScopeOp.depth before = level ∧
    ∀ passed, passed <+: later → level ≤ ScopeOp.depth (before ++ .declare name ty :: passed)

/-! ## One operation more -/

theorem performAll_concat (s : Scopes) (ops : List ScopeOp) (op : ScopeOp) :
    s.performAll (ops ++ [op]) = (s.performAll ops).perform op := by
  rw [performAll, List.foldl_append]
  rfl

theorem slots_concat (s : Scopes) (ops : List ScopeOp) (op : ScopeOp) :
    s.slots (ops ++ [op]) = s.slots ops ++ ((s.performAll ops).slot? op).toList := by
  induction ops generalizing s with
  | nil => simp [slots, performAll]
  | cons first ops ih =>
      rw [List.cons_append, slots, ih, slots, List.append_assoc]
      rfl

/-- A declaration succeeds where the name is not visible, and gives it the next slot in the
innermost block. -/
theorem declare_of_find?_none {s : Scopes} {name : Ident} (h : s.find? name.name = none) (ty : Ty) :
    s.declare name ty = (.ok s.nextSlot,
      ⟨⟨name.name, ty, s.nextSlot, name.span⟩ :: s.innermost, s.enclosing, s.nextSlot + 1⟩) := by
  rw [declare, h]

/-- A declaration fails where the name is visible, and changes nothing. -/
theorem declare_of_find? {s : Scopes} {name : Ident} {existing : Symbol}
    (h : s.find? name.name = some existing) (ty : Ty) :
    s.declare name ty = (.error existing, s) := by
  rw [declare, h]

theorem declare_eq_error {s : Scopes} {name : Ident} {ty : Ty} {existing : Symbol} :
    (s.declare name ty).1 = .error existing ↔ s.find? name.name = some existing := by
  cases hfind : s.find? name.name with
  | none => simp [declare_of_find?_none hfind]
  | some found => simp [declare_of_find? hfind]

theorem find?_eq_none {s : Scopes} {name : String} :
    s.find? name = none ↔ ∀ sym ∈ s.visible, sym.name ≠ name := by
  simp [find?, List.find?_eq_none]

/-- What is still open after one operation more was open before, or has just been declared. -/
theorem stillOpen_concat {ops : List ScopeOp} {op : ScopeOp} {level : Nat} {sym : Symbol} :
    StillOpen (ops ++ [op]) level sym ↔
      (StillOpen ops level sym ∧ level ≤ ScopeOp.depth (ops ++ [op])) ∨
        ∃ name ty slot after, op = .declare name ty ∧
          (initial.performAll ops).declare name ty = (.ok slot, after) ∧
          sym = ⟨name.name, ty, slot, name.span⟩ ∧ ScopeOp.depth ops = level := by
  constructor
  · rintro ⟨before, name, ty, later, after, slot, hops, hdeclare, hsym, hlevel, hopen⟩
    cases later using List.reverseRecOn with
    | nil =>
        obtain ⟨rfl, rfl⟩ : ops = before ∧ op = .declare name ty := by
          simpa using List.append_inj' hops rfl
        exact .inr ⟨name, ty, slot, after, rfl, hdeclare, hsym, hlevel⟩
    | append_singleton later last =>
        rw [← List.cons_append, ← List.append_assoc] at hops
        obtain ⟨rfl, hlast⟩ := List.append_inj' hops rfl
        cases hlast
        refine .inl
          ⟨⟨before, name, ty, later, after, slot, rfl, hdeclare, hsym, hlevel, fun passed hpassed =>
            ?_⟩, ?_⟩
        · exact hopen passed (hpassed.trans (List.prefix_append _ _))
        · simpa using hopen (later ++ [op]) (List.prefix_refl _)
  · rintro (⟨⟨before, name, ty, later, after, slot, rfl, hdeclare, hsym, hlevel, hopen⟩, hdepth⟩ |
      ⟨name, ty, slot, after, rfl, hdeclare, hsym, hlevel⟩)
    · refine ⟨before, name, ty, later ++ [op], after, slot,
        by simp, hdeclare, hsym, hlevel, fun passed hpassed => ?_⟩
      rcases List.prefix_concat_iff.mp hpassed with rfl | hpassed
      · simpa using hdepth
      · exact hopen passed hpassed
    · refine ⟨ops, name, ty, [], after, slot, rfl, hdeclare, hsym, hlevel, fun passed hpassed => ?_⟩
      cases List.prefix_nil.mp hpassed
      rw [ScopeOp.depth_concat, hlevel]
      exact Nat.le_refl _

theorem StillOpen.level_le {ops : List ScopeOp} {level : Nat} {sym : Symbol}
    (h : StillOpen ops level sym) :
    level ≤ ScopeOp.depth ops := by
  obtain ⟨before, name, ty, later, after, slot, rfl, -, -, -, hopen⟩ := h
  exact hopen later (List.prefix_refl _)

theorem mem_visible {s : Scopes} {sym : Symbol} :
    sym ∈ s.visible ↔ ∃ (level : Nat) (block : List Symbol), s.opened[level]? = some block ∧
    sym ∈ block := by
  have hvisible : sym ∈ s.visible ↔ ∃ block ∈ s.opened, sym ∈ block := by
    simp [visible, opened, or_comm]
  rw [hvisible]
  constructor
  · rintro ⟨block, hblock, hsym⟩
    obtain ⟨level, hlevel⟩ := List.mem_iff_getElem?.mp hblock
    exact ⟨level, block, hlevel, hsym⟩
  · rintro ⟨level, block, hlevel, hsym⟩
    exact ⟨block, List.mem_of_getElem? hlevel, hsym⟩

/-! ## What operations make of scopes -/

/-- What scopes are behind operations at the start of a function. -/
structure Accounted (ops : List ScopeOp) (s : Scopes) : Prop where
  /-- Slots are handed out in order from zero, and none of them twice. -/
  slots : initial.slots ops = List.range s.nextSlot
  /-- The function's own block is always open. -/
  depth : s.opened.length = ScopeOp.depth ops + 1
  /-- A block holds what was declared in it, as it was declared. -/
  symbols : ∀ level block, s.opened[level]? = some block → ∀ sym, sym ∈ block ↔
    StillOpen ops level sym
  /-- No name is borne twice, be it in one block or in two. -/
  distinct : (s.visible.map (·.name)).Nodup

theorem Accounted.fresh : Accounted [] initial := by
  refine ⟨rfl, rfl, fun level block hblock sym => ?_, .nil⟩
  constructor
  · intro hsym
    cases level <;> simp [opened, initial] at hblock
    simp [hblock] at hsym
  · rintro ⟨before, name, ty, later, after, slot, hops, -⟩
    simp at hops

variable {ops : List ScopeOp} {s : Scopes}

theorem Accounted.push (h : Accounted ops s) : Accounted (ops ++ [.push]) s.push := by
  have hopened : s.push.opened = s.opened ++ [[]] := by simp [opened, Scopes.push]
  have hdepth : ScopeOp.depth (ops ++ [.push]) = ScopeOp.depth ops + 1 :=
    ScopeOp.depth_concat ops .push
  refine ⟨?_, by simp [hopened, hdepth, h.depth], fun level block hblock sym => ?_, ?_⟩
  · rw [slots_concat, h.slots]
    exact List.append_nil _
  · rw [hopened] at hblock
    have hsame : StillOpen (ops ++ [.push]) level sym ↔ StillOpen ops level sym := by
      rw [stillOpen_concat, hdepth]
      constructor
      · rintro (⟨hopen, -⟩ | ⟨_, _, _, _, ⟨⟩, -⟩)
        exact hopen
      · intro hopen
        exact .inl ⟨hopen, Nat.le_succ_of_le hopen.level_le⟩
    rw [hsame]
    by_cases hlevel : level < s.opened.length
    · rw [List.getElem?_append_left hlevel] at hblock
      exact h.symbols level block hblock sym
    · -- the new block is empty, and nothing was declared at its level that is still open
      rw [List.getElem?_append_right (Nat.not_lt.mp hlevel)] at hblock
      have hempty : block = [] := by
        have := List.mem_of_getElem? hblock
        simpa using this
      rw [hempty]
      constructor
      · intro hsym
        cases hsym
      · intro hopen
        have := hopen.level_le
        have := h.depth
        omega
  · have hvisible : s.push.visible = s.visible := by simp [visible, Scopes.push]
    rw [hvisible]
    exact h.distinct

theorem Accounted.pop (h : Accounted ops s) : Accounted (ops ++ [.pop]) s.pop := by
  have hdepth : ScopeOp.depth (ops ++ [.pop]) = ScopeOp.depth ops - 1 :=
    ScopeOp.depth_concat ops .pop
  have hsame (level : Nat) (sym : Symbol) : StillOpen (ops ++ [.pop]) level sym ↔
      StillOpen ops level sym ∧ level ≤ ScopeOp.depth ops - 1 := by
    rw [stillOpen_concat, hdepth]
    constructor
    · rintro (hopen | ⟨_, _, _, _, ⟨⟩, -⟩)
      exact hopen
    · exact .inl
  have hslots : initial.slots (ops ++ [.pop]) = initial.slots ops := by
    rw [slots_concat]
    exact List.append_nil _
  obtain ⟨innermost, enclosing, nextSlot⟩ := s
  have hlength := h.depth
  cases enclosing with
  | nil =>
      simp only [opened, List.reverse_cons, List.reverse_nil, List.nil_append,
        List.length_singleton] at hlength
      refine ⟨hslots.trans h.slots, ?_, fun level block hblock sym => ?_, h.distinct⟩
      · rw [hdepth]
        exact h.depth.trans (by omega)
      · rw [hsame, ← h.symbols level block hblock sym]
        constructor
        · intro hsym
          have := ((h.symbols level block hblock sym).mp hsym).level_le
          exact ⟨hsym, by omega⟩
        · exact And.left
  | cons outer others =>
      have hopened : (⟨innermost, outer :: others, nextSlot⟩ : Scopes).opened =
          (⟨outer, others, nextSlot⟩ : Scopes).opened ++ [innermost] := by simp [opened]
      rw [hopened, List.length_append, List.length_singleton] at hlength
      refine ⟨hslots.trans h.slots, ?_, fun level block hblock sym => ?_, ?_⟩
      · rw [hdepth]
        show (⟨outer, others, nextSlot⟩ : Scopes).opened.length = _
        have : 1 ≤ (⟨outer, others, nextSlot⟩ : Scopes).opened.length := by simp [opened]
        omega
      · have hlt : level < (⟨outer, others, nextSlot⟩ : Scopes).opened.length :=
          (List.getElem?_eq_some_iff.mp hblock).1
        have hblock' : (⟨innermost, outer :: others, nextSlot⟩ : Scopes).opened[level]? =
            some block := by
          rw [hopened, List.getElem?_append_left hlt]
          exact hblock
        rw [hsame, h.symbols level block hblock' sym]
        constructor
        · intro hopen
          exact ⟨hopen, by omega⟩
        · exact And.left
      · have hdistinct := h.distinct
        simp only [visible, List.flatten_cons, List.map_append] at hdistinct
        simpa [visible, Scopes.pop] using hdistinct.of_append_right

theorem Accounted.declare (hs : s = initial.performAll ops) (h : Accounted ops s) (name : Ident)
    (ty : Ty) :
    Accounted (ops ++ [.declare name ty]) (s.perform (.declare name ty)) := by
  have hdepth : ScopeOp.depth (ops ++ [.declare name ty]) = ScopeOp.depth ops :=
    ScopeOp.depth_concat ops (.declare name ty)
  cases hfind : s.find? name.name with
  | some existing =>
      have hdeclare := declare_of_find? hfind ty
      have hperform : s.perform (.declare name ty) = s := by rw [perform, hdeclare]
      rw [hperform]
      have hsame (level : Nat) (sym : Symbol) : StillOpen (ops ++ [.declare name ty]) level sym ↔
          StillOpen ops level sym := by
        rw [stillOpen_concat, hdepth]
        constructor
        · rintro (⟨hopen, -⟩ | ⟨_, _, _, _, ⟨⟩, hok, -⟩)
          · exact hopen
          · rw [← hs, hdeclare] at hok
            cases hok
        · intro hopen
          exact .inl ⟨hopen, hopen.level_le⟩
      refine ⟨?_, hdepth ▸ h.depth, fun level block hblock sym => ?_, h.distinct⟩
      · rw [slots_concat, h.slots, ← hs, slot?, hdeclare]
        exact List.append_nil _
      · rw [hsame]
        exact h.symbols level block hblock sym
  | none =>
      have hdeclare := declare_of_find?_none hfind ty
      rw [perform, hdeclare]
      have hsame (level : Nat) (sym : Symbol) : StillOpen (ops ++ [.declare name ty]) level sym ↔
          StillOpen ops level sym ∨
          (sym = ⟨name.name, ty, s.nextSlot, name.span⟩ ∧ ScopeOp.depth ops = level) := by
        rw [stillOpen_concat, hdepth]
        constructor
        · rintro (⟨hopen, -⟩ | ⟨_, _, _, _, ⟨⟩, hok, hsym, hlevel⟩)
          · exact .inl hopen
          · rw [← hs, hdeclare] at hok
            cases hok
            exact .inr ⟨hsym, hlevel⟩
        · rintro (hopen | ⟨hsym, hlevel⟩)
          · exact .inl ⟨hopen, hopen.level_le⟩
          · exact .inr ⟨name, ty, s.nextSlot, _, rfl, by rw [← hs, hdeclare], hsym, hlevel⟩
      have hopened : s.opened = s.enclosing.reverse ++ [s.innermost] := by simp [opened]
      have hlength := h.depth
      rw [hopened, List.length_append, List.length_singleton, List.length_reverse] at hlength
      refine ⟨?_, ?_, fun level block hblock sym => ?_, ?_⟩
      · rw [slots_concat, h.slots, ← hs, slot?, hdeclare, List.range_succ]
        rfl
      · rw [hdepth]
        simpa [opened] using hlength
      · rw [hsame]
        simp only [opened, List.reverse_cons] at hblock
        by_cases hlevel : level < s.enclosing.length
        · rw [List.getElem?_append_left (by simpa using hlevel)] at hblock
          have hblock' : s.opened[level]? = some block := by
            rw [hopened, List.getElem?_append_left (by simpa using hlevel), hblock]
          rw [h.symbols level block hblock' sym]
          constructor
          · exact .inl
          · rintro (hopen | ⟨-, hdeep⟩)
            · exact hopen
            · omega
        · have hlast := (List.getElem?_eq_some_iff.mp hblock).1
          obtain rfl : level = s.enclosing.length := by
            simp only [List.length_append, List.length_reverse, List.length_singleton] at hlast
            omega
          rw [List.getElem?_append_right (by simp)] at hblock
          have hinner : s.opened[s.enclosing.length]? = some s.innermost := by
            rw [hopened, List.getElem?_append_right (by simp)]
            simp
          cases (by simpa using hblock : _ :: s.innermost = block)
          rw [List.mem_cons, h.symbols _ _ hinner sym]
          constructor
          · rintro (hsym | hopen)
            · exact .inr ⟨hsym, by omega⟩
            · exact .inl hopen
          · rintro (hopen | ⟨hsym, -⟩)
            · exact .inr hopen
            · exact .inl hsym
      · have hnew := find?_eq_none.mp hfind
        simp only [visible, List.cons_append, List.map_cons, List.nodup_cons]
        refine ⟨fun hmem => ?_, h.distinct⟩
        obtain ⟨sym, hsym, hname⟩ := List.mem_map.mp hmem
        exact hnew sym hsym hname

/-- **Whatever is done with scopes, they are accounted for.** -/
theorem accounted (ops : List ScopeOp) : Accounted ops (initial.performAll ops) := by
  induction ops using List.reverseRecOn with
  | nil => exact .fresh
  | append_singleton ops op ih =>
      rw [performAll_concat]
      cases op with
      | push => exact ih.push
      | pop => exact ih.pop
      | declare name ty => exact ih.declare rfl name ty

/-- The visible names are those declared in blocks that are still open. -/
theorem Accounted.find?_eq_some (h : Accounted ops s) {name : String} {sym : Symbol} :
    s.find? name = some sym ↔ sym.name = name ∧ ∃ level, StillOpen ops level sym := by
  have hvisible : sym ∈ s.visible ↔ ∃ level, StillOpen ops level sym := by
    rw [mem_visible]
    constructor
    · rintro ⟨level, block, hblock, hsym⟩
      exact ⟨level, (h.symbols level block hblock sym).mp hsym⟩
    · rintro ⟨level, hopen⟩
      have hlt : level < s.opened.length := by
        have := hopen.level_le
        have := h.depth
        omega
      exact ⟨level, s.opened[level], List.getElem?_eq_getElem hlt,
        (h.symbols level _ (List.getElem?_eq_getElem hlt) sym).mpr hopen⟩
  rw [← hvisible]
  constructor
  · intro hfind
    exact ⟨by simpa using List.find?_some hfind, List.mem_of_find?_eq_some hfind⟩
  · rintro ⟨rfl, hsym⟩
    obtain ⟨found, hfound⟩ : ∃ found, s.find? sym.name = some found := by
      rw [← Option.isSome_iff_exists, find?, List.find?_isSome]
      exact ⟨sym, hsym, by simp⟩
    have hname : found.name = sym.name := by simpa using List.find?_some hfound
    rw [hfound, List.inj_on_of_nodup_map h.distinct (List.mem_of_find?_eq_some hfound) hsym hname]

/-- A name belongs to one symbol of one open block. -/
theorem Accounted.unique (h : Accounted ops s) {level level' : Nat} {sym sym' : Symbol}
    (hopen : StillOpen ops level sym) (hopen' : StillOpen ops level' sym')
    (hname : sym.name = sym'.name) :
    level = level' ∧ sym = sym' := by
  have hlt := hopen.level_le
  have hlt' := hopen'.level_le
  have hlength := h.depth
  have hget := List.getElem?_eq_getElem (l := s.opened) (i := level) (by omega)
  have hget' := List.getElem?_eq_getElem (l := s.opened) (i := level') (by omega)
  have hsym := (h.symbols level _ hget sym).mpr hopen
  have hsym' := (h.symbols level' _ hget' sym').mpr hopen'
  have hsame :
    sym = sym' := List.inj_on_of_nodup_map h.distinct (mem_visible.mpr ⟨level, _, hget, hsym⟩)
    (mem_visible.mpr ⟨level', _, hget', hsym'⟩) hname
  subst hsame
  have hnodup : s.opened.flatten.Nodup := by
    have hperm : s.opened.flatten.Perm s.visible := (List.reverse_perm _).flatten
    exact hperm.nodup_iff.mpr (List.Nodup.of_map _ h.distinct)
  refine ⟨?_, rfl⟩
  by_contra hne
  have hdisjoint := List.pairwise_iff_getElem.mp (List.nodup_flatten.mp hnodup).2
  rcases Nat.lt_or_gt_of_ne hne with hless | hless
  · exact hdisjoint level level' _ _ hless hsym hsym'
  · exact hdisjoint level' level _ _ hless hsym' hsym

theorem enclosing_perform_declare (s : Scopes) (name : Ident) (ty : Ty) :
    (s.perform (.declare name ty)).enclosing = s.enclosing := by
  cases hfind : s.find? name.name with
  | some existing => rw [perform, declare_of_find? hfind]
  | none => rw [perform, declare_of_find?_none hfind]

theorem pop_eq {outer : List Symbol} {others : List (List Symbol)}
    (h : s.enclosing = outer :: others) :
    s.pop = ⟨outer, others, s.nextSlot⟩ := by
  unfold pop
  rw [h]

/-- Operations that close what they open leave the blocks around the innermost one alone. -/
theorem enclosing_performAll {inner : List ScopeOp} (h : ScopeOp.Balanced inner) (s : Scopes) :
    (s.performAll inner).enclosing = s.enclosing := by
  induction h generalizing s with
  | nil => rfl
  | declare name ty _ ih => exact (ih _).trans (enclosing_perform_declare s name ty)
  | @block inner ops _ _ hinner hops =>
      have hpop : (s.push.performAll inner).pop.enclosing = s.enclosing := by
        rw [pop_eq (hinner s.push)]
      rw [performAll, List.foldl_cons, List.foldl_append]
      exact (hops _).trans hpop

/-- Behind a block, the same names are visible as before it, with the same symbols. -/
theorem visible_block {inner : List ScopeOp} (h : ScopeOp.Balanced inner) (s : Scopes) :
    (s.performAll (.push :: (inner ++ [.pop]))).visible = s.visible := by
  have hpop : (s.push.performAll inner).pop.visible = s.visible := by
    rw [pop_eq (enclosing_performAll h s.push)]
    rfl
  rw [performAll, List.foldl_cons, List.foldl_append]
  exact hpop

/-- What was declared in the function's own block stays open. -/
theorem StillOpen.goesOn {sym : Symbol} (h : StillOpen ops 0 sym) (more : List ScopeOp) :
    StillOpen (ops ++ more) 0 sym := by
  obtain ⟨before, name, ty, later, after, slot, rfl, hdeclare, hsym, hlevel, -⟩ := h
  exact ⟨before, name, ty, later ++ more, after, slot,
    by simp, hdeclare, hsym, hlevel, fun _ _ => Nat.zero_le _⟩

/-- **The invariant of scopes.** Behind any operations at the start of a function, slots were handed
out in order, each open block holds what was declared in it, no name is borne twice, and the
function's own block is open. The names found are those declared in open blocks, each of them in
one. A declaration fails exactly if the name is found, and changes nothing then. A block leaves no
trace in what is found, and what was declared in the function's own block is found for good. -/
theorem scope_stack_invariant :
    (∀ ops, Accounted ops (initial.performAll ops)) ∧
    (∀ ops name sym, (initial.performAll ops).find? name = some sym ↔
      sym.name = name ∧ ∃ level, StillOpen ops level sym) ∧
    (∀ ops level level' sym sym', StillOpen ops level sym → StillOpen ops level' sym' →
      sym.name = sym'.name →
      level = level' ∧ sym = sym') ∧
    (∀ (s : Scopes) name ty existing,
      (s.declare name ty).1 = .error existing ↔ s.find? name.name = some existing) ∧
    (∀ (s : Scopes) name ty, (s.find? name.name).isSome → s.perform (.declare name ty) = s) ∧
    (∀ (s : Scopes) inner name, ScopeOp.Balanced inner →
      (s.performAll (.push :: (inner ++ [.pop]))).find? name = s.find? name) ∧
    ∀ ops more sym, StillOpen ops 0 sym →
    (initial.performAll (ops ++ more)).find? sym.name = some sym := by
  refine ⟨accounted, fun ops name sym => (accounted ops).find?_eq_some, fun ops level level' sym
      sym' hopen hopen' =>
    (accounted ops).unique hopen hopen', fun s name ty existing => declare_eq_error,
    fun s name ty hfind => ?_,
    fun s inner name hinner => ?_, fun ops more sym hopen => ?_⟩
  · obtain ⟨existing, hexisting⟩ := Option.isSome_iff_exists.mp hfind
    rw [perform, declare_of_find? hexisting]
  · rw [find?, visible_block hinner, find?]
  · exact (accounted (ops ++ more)).find?_eq_some.mpr ⟨rfl, 0, hopen.goesOn more⟩

/-- Two variables are declared, one of them in a block of its own, a third declaration meets a name
that is taken, and more blocks are closed than were opened. -/
def crossed : List ScopeOp :=
  [.declare ⟨"a", default⟩ .number, .push, .declare ⟨"b", default⟩ .number, .declare ⟨"a", default⟩
    .string, .pop, .pop,
    .declare ⟨"b", default⟩ .boolean]

example : initial.slots crossed = [0, 1, 2] := by decide

theorem scope_stack_invariant_crossed :
    (initial.performAll crossed).find? "b" = some ⟨"b", .boolean, 2, default⟩ ∧
    (∃ level, StillOpen crossed level ⟨"b", .boolean, 2, default⟩) ∧
    ((initial.performAll crossed).performAll [.push, .declare ⟨"c", default⟩ .number, .pop]).find?
      "c" = none := by
  have hfind : (initial.performAll crossed).find? "b" = some ⟨"b", .boolean, 2, default⟩ := by
    decide
  have hnone : (initial.performAll crossed).find? "c" = none := by decide
  obtain ⟨-, hopen, -, -, -, hblock, -⟩ := scope_stack_invariant
  exact ⟨hfind, ((hopen crossed "b" _).mp hfind).2,
    (hblock (initial.performAll crossed) [.declare ⟨"c", default⟩ .number] "c"
      (.declare _ _ .nil)).trans hnone⟩

end Scopes

end Stepwise
