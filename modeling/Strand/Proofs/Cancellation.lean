import Strand.Program
import Strand.Proofs.Rehearsal

/-! # Cancellation — a finished routine makes its descendants exit

    When a routine finishes, all its live descendants are made to exit before
    its result goes on, whether they were suspended, captured or still on the
    stack. The pass works through a list of items on top of its stack:

    * the forced return of a descendant, whose own children have not been
      touched yet;
    * a result that is kept back until the exits above it are over.

    A turn takes the top item. A forced return makes its script exit and, if
    there are children, puts theirs on top, over what its own result is. A kept
    result goes on, unless a failure has come down to it. `Awaits` is the
    invariant; `sweeps_descendants` is the run from the finish of the routine
    until its result is delivered. -/

namespace Strand

variable {C : Type}

/-! ### Descendants -/

/-- Siblings in the order in which they were spawned, each with its script and
    its own children. -/
inductive Brood (C : Type) where
  | nil
  | cons (id : RoutineId) (script : Script C) (children later : Brood C)

namespace Brood

open Scheduler

/-- The siblings themselves. -/
def roots : Brood C → List RoutineId
  | nil => []
  | cons id _ _ later => id :: later.roots

/-- All descendants. -/
def ids : Brood C → List RoutineId
  | nil => []
  | cons id _ children later => id :: (children.ids ++ later.ids)

/-- How many descendants there are. -/
def size : Brood C → Nat
  | nil => 0
  | cons _ _ children later => children.size + later.size + 1

/-- The forced returns, in the order in which they happen: parents before their
    children, siblings in the reverse of the order in which they were spawned.
    A forced return is known by the identifier that follows the routine's. -/
def exits : Brood C → List (RoutineId × Script C)
  | nil => []
  | cons id script children later => later.exits ++ (id.next, script) :: children.exits

/-- The siblings are the live children of `parent` in a roster, and so on down. -/
def Stands (r : Roster (Routine C)) (parent : RoutineId) : Brood C → Prop
  | nil => True
  | cons id script children later =>
    (∃ origin, r.find? id = some ⟨origin, some script, some parent, children.roots⟩) ∧
      children.Stands r id ∧ later.Stands r parent

theorem length_exits (b : Brood C) : b.exits.length = b.size := by
  induction b with
  | nil => rfl
  | cons id script children later ihc ihl => simp [exits, size, ihc, ihl]; omega

theorem roots_subset_ids (b : Brood C) : ∀ a ∈ b.roots, a ∈ b.ids := by
  induction b with
  | nil => exact nofun
  | cons id script children later _ ih =>
    intro a ha
    rcases List.mem_cons.mp ha with rfl | ha
    · exact List.mem_cons_self ..
    · exact List.mem_cons_of_mem _ (List.mem_append_right _ (ih a ha))

theorem Stands.live {r : Roster (Routine C)} {b : Brood C} {q : RoutineId} (h : b.Stands r q) :
    ∀ a ∈ b.ids, ∃ x, r.find? a = some x := by
  induction b generalizing q with
  | nil => exact nofun
  | cons id script children later ihc ihl =>
    obtain ⟨⟨origin, hid⟩, hc, hl⟩ := h
    intro a ha
    rcases List.mem_cons.mp ha with rfl | ha
    · exact ⟨_, hid⟩
    · rcases List.mem_append.mp ha with ha | ha
      · exact ihc hc a ha
      · exact ihl hl a ha

/-- Descendants stand where their entries stay. -/
theorem Stands.congr {r r' : Roster (Routine C)} {b : Brood C} {q : RoutineId}
    (h : b.Stands r q) (hfind : ∀ a ∈ b.ids, r'.find? a = r.find? a) : b.Stands r' q := by
  induction b generalizing q with
  | nil => trivial
  | cons id script children later ihc ihl =>
    obtain ⟨⟨origin, hid⟩, hc, hl⟩ := h
    refine ⟨⟨origin, ?_⟩, ihc hc ?_, ihl hl ?_⟩
    · rw [hfind id (List.mem_cons_self ..), hid]
    · exact fun a ha => hfind a (List.mem_cons_of_mem _ (List.mem_append_left _ ha))
    · exact fun a ha => hfind a (List.mem_cons_of_mem _ (List.mem_append_right _ ha))

/-- Siblings stand under a new parent once that is what their entries name. -/
theorem Stands.adopted {r r' : Roster (Routine C)} {b : Brood C} {q w : RoutineId}
    (h : b.Stands r q) (hnodup : b.ids.Nodup)
    (hroots : ∀ a ∈ b.roots, ∀ x, r.find? a = some x →
      r'.find? a = some { x with parent := some w })
    (hothers : ∀ a ∈ b.ids, a ∉ b.roots → r'.find? a = r.find? a) : b.Stands r' w := by
  induction b with
  | nil => trivial
  | cons id script children later _ ihl =>
    obtain ⟨⟨origin, hid⟩, hc, hl⟩ := h
    simp only [ids, List.nodup_cons, List.mem_append, List.nodup_append] at hnodup
    obtain ⟨hnotin, -, hnodupl, hdisjoint⟩ := hnodup
    refine ⟨⟨origin, hroots id (List.mem_cons_self ..) _ hid⟩, hc.congr ?_, ihl hl hnodupl ?_ ?_⟩
    · intro a ha
      refine hothers a (List.mem_cons_of_mem _ (List.mem_append_left _ ha)) ?_
      intro hmem
      rcases List.mem_cons.mp hmem with rfl | hmem
      · exact hnotin (Or.inl ha)
      · exact hdisjoint a ha a (later.roots_subset_ids a hmem) rfl
    · exact fun a ha => hroots a (List.mem_cons_of_mem _ ha)
    · intro a ha hnot
      refine hothers a (List.mem_cons_of_mem _ (List.mem_append_right _ ha)) ?_
      intro hmem
      rcases List.mem_cons.mp hmem with rfl | hmem
      · exact hnotin (Or.inr ha)
      · exact hnot hmem

theorem Stands.parent_roots {r : Roster (Routine C)} {b : Brood C} {q : RoutineId}
    (h : b.Stands r q) : ∀ a ∈ b.roots, ∀ x, r.find? a = some x → x.parent = some q := by
  induction b with
  | nil => exact nofun
  | cons id script children later _ ihl =>
    obtain ⟨⟨origin, hid⟩, -, hl⟩ := h
    intro a ha x hx
    rcases List.mem_cons.mp ha with rfl | ha
    · rw [hid] at hx
      cases hx
      rfl
    · exact ihl hl a ha x hx

/-- The parent of a descendant is a descendant, or the routine at the top. -/
theorem Stands.parent {r : Roster (Routine C)} {b : Brood C} {q : RoutineId}
    (h : b.Stands r q) :
    ∀ a ∈ b.ids, ∀ x, r.find? a = some x → ∃ y ∈ q :: b.ids, x.parent = some y := by
  induction b generalizing q with
  | nil => exact nofun
  | cons id script children later ihc ihl =>
    obtain ⟨⟨origin, hid⟩, hc, hl⟩ := h
    intro a ha x hx
    rcases List.mem_cons.mp ha with rfl | ha
    · rw [hid] at hx
      cases hx
      exact ⟨q, List.mem_cons_self .., rfl⟩
    · rcases List.mem_append.mp ha with ha | ha
      · obtain ⟨y, hy, hparent⟩ := ihc hc a ha x hx
        refine ⟨y, List.mem_cons_of_mem _ ?_, hparent⟩
        rcases List.mem_cons.mp hy with rfl | hy
        · exact List.mem_cons_self ..
        · exact List.mem_cons_of_mem _ (List.mem_append_left _ hy)
      · obtain ⟨y, hy, hparent⟩ := ihl hl a ha x hx
        refine ⟨y, ?_, hparent⟩
        rcases List.mem_cons.mp hy with rfl | hy
        · exact List.mem_cons_self ..
        · exact List.mem_cons_of_mem _ (List.mem_cons_of_mem _ (List.mem_append_right _ hy))

/-- The children of a descendant are descendants. -/
theorem Stands.child {r : Roster (Routine C)} {b : Brood C} {q : RoutineId}
    (h : b.Stands r q) :
    ∀ a ∈ b.ids, ∀ x, r.find? a = some x → ∀ c ∈ x.children, c ∈ b.ids := by
  induction b generalizing q with
  | nil => exact nofun
  | cons id script children later ihc ihl =>
    obtain ⟨⟨origin, hid⟩, hc, hl⟩ := h
    intro a ha x hx c hmem
    refine List.mem_cons_of_mem _ (List.mem_append.mpr ?_)
    rcases List.mem_cons.mp ha with rfl | ha
    · rw [hid] at hx
      cases hx
      exact Or.inl (children.roots_subset_ids c hmem)
    · rcases List.mem_append.mp ha with ha | ha
      · exact Or.inl (ihc hc a ha x hx c hmem)
      · exact Or.inr (ihl hl a ha x hx c hmem)

/-- Descendants have a script at rest. -/
theorem Stands.script {r : Roster (Routine C)} {b : Brood C} {q : RoutineId}
    (h : b.Stands r q) : ∀ a ∈ b.ids, ∀ x, r.find? a = some x → x.script ≠ none := by
  induction b generalizing q with
  | nil => exact nofun
  | cons id script children later ihc ihl =>
    obtain ⟨⟨origin, hid⟩, hc, hl⟩ := h
    intro a ha x hx
    rcases List.mem_cons.mp ha with rfl | ha
    · rw [hid] at hx
      cases hx
      exact nofun
    · rcases List.mem_append.mp ha with ha | ha
      · exact ihc hc a ha x hx
      · exact ihl hl a ha x hx

/-- What is closed under parents, as far as they are descendants, and has none
    of the siblings has no descendant. -/
theorem Stands.apart {r : Roster (Routine C)} {b : Brood C} {q : RoutineId} {S : RoutineId → Prop}
    (h : b.Stands r q) (hroots : ∀ a ∈ b.roots, ¬ S a)
    (hup : ∀ a x y, S a → r.find? a = some x → x.parent = some y → S y ∨ y ∉ b.ids) :
    ∀ a ∈ b.ids, ¬ S a := by
  induction b generalizing q with
  | nil => exact nofun
  | cons id script children later ihc ihl =>
    obtain ⟨-, hc, hl⟩ := h
    have hid : ¬ S id := hroots id (List.mem_cons_self ..)
    intro a ha
    rcases List.mem_cons.mp ha with rfl | ha
    · exact hid
    · rcases List.mem_append.mp ha with ha | ha
      · refine ihc hc ?_ ?_ a ha
        · intro c hmem hS
          obtain ⟨x, hx⟩ := hc.live c (children.roots_subset_ids c hmem)
          have hparent : x.parent = some id := hc.parent_roots c hmem x hx
          rcases hup c x id hS hx hparent with hS | hnot
          · exact hid hS
          · exact hnot (List.mem_cons_self ..)
        · intro d x y hS hx hy
          rcases hup d x y hS hx hy with hS | hnot
          · exact Or.inl hS
          · exact Or.inr fun hmem =>
              hnot (List.mem_cons_of_mem _ (List.mem_append_left _ hmem))
      · refine ihl hl (fun c hmem => hroots c (List.mem_cons_of_mem _ hmem)) ?_ a ha
        intro d x y hS hx hy
        rcases hup d x y hS hx hy with hS | hnot
        · exact Or.inl hS
        · exact Or.inr fun hmem =>
            hnot (List.mem_cons_of_mem _ (List.mem_append_right _ hmem))

/-- No routine is a descendant twice. -/
theorem Stands.nodup {r : Roster (Routine C)} {b : Brood C} {q : RoutineId} (hl : Linked r)
    (h : b.Stands r q) (hroots : b.roots.Nodup) (hq : q ∉ b.ids) : b.ids.Nodup := by
  induction b generalizing q with
  | nil => exact List.nodup_nil
  | cons id script children later ihc ihl =>
    have hparent := h.parent_roots id (List.mem_cons_self ..)
    obtain ⟨⟨origin, hid⟩, hc, hlater⟩ := h
    rw [roots, List.nodup_cons] at hroots
    simp only [ids, List.mem_cons, List.mem_append, not_or] at hq
    obtain ⟨hne, hqc, hql⟩ := hq
    have hup : ∀ a ∈ children.ids, ∀ x, r.find? a = some x → x.parent ≠ some q := by
      intro a ha x hx heq
      obtain ⟨y, hy, hparent⟩ := hc.parent a ha x hx
      rw [heq] at hparent
      cases hparent
      rcases List.mem_cons.mp hy with hy | hy
      · exact hne hy
      · exact hqc hy
    have hidc : id ∉ children.ids := fun hmem => hup id hmem _ hid (hparent _ hid)
    have hapart : ∀ a ∈ later.ids, ¬ a ∈ id :: children.ids := by
      refine hlater.apart ?_ ?_
      · intro c hmem hS
        rcases List.mem_cons.mp hS with rfl | hS
        · exact hroots.1 hmem
        · obtain ⟨x, hx⟩ := hlater.live c (later.roots_subset_ids c hmem)
          exact hup c hS x hx (hlater.parent_roots c hmem x hx)
      · intro a x y hS hx hy
        rcases List.mem_cons.mp hS with rfl | hS
        · have heq := hparent x hx
          rw [hy] at heq
          cases heq
          exact Or.inr hql
        · obtain ⟨z, hz, hpz⟩ := hc.parent a hS x hx
          rw [hy] at hpz
          cases hpz
          exact Or.inl hz
    rw [ids, List.nodup_cons, List.mem_append, not_or, List.nodup_append]
    refine ⟨⟨hidc, fun hmem => hapart id hmem (List.mem_cons_self ..)⟩,
      ihc hc (hl.nodup hid) hidc, ihl hlater hroots.2 hql, ?_⟩
    rintro a ha _ hb rfl
    exact hapart a hb (List.mem_cons_of_mem _ ha)

/-- The descendants of a routine whose script is out form a tree, and its
    parent is outside of it. -/
theorem Stands.tree {r : Roster (Routine C)} {b : Brood C} {q : RoutineId} {x : Routine C}
    (h : b.Stands r q) (hl : Linked r) (hq : r.find? q = some x) (hout : x.script = none)
    (hchildren : x.children = b.roots) :
    (q :: b.ids).Nodup ∧ ∀ y, x.parent = some y → y ∉ b.ids := by
  have hnot : q ∉ b.ids := fun hmem => h.script q hmem x hq hout
  refine ⟨List.nodup_cons.mpr ⟨hnot, h.nodup hl (hchildren ▸ hl.nodup hq) hnot⟩, ?_⟩
  intro y hy hmem
  obtain ⟨z, hz, hlists⟩ := hl.parent_live hq hy
  exact hnot (h.child y hmem z hz q hlists)

/-- The tree that stands below some routines, computed to a depth. -/
def gather (r : Roster (Routine C)) : (fuel : Nat) → List RoutineId → Option (Brood C)
  | _, [] => some .nil
  | 0, _ :: _ => none
  | fuel + 1, id :: later => do
    let x ← r.find? id
    let script ← x.script
    let children ← gather r fuel x.children
    let later ← gather r fuel later
    some (.cons id script children later)

theorem stands_of_gather {r : Roster (Routine C)} (hl : Linked r) {fuel : Nat}
    {ids : List RoutineId} {b : Brood C} {q : RoutineId} (h : gather r fuel ids = some b)
    (hq : ∀ a ∈ ids, ∀ x, r.find? a = some x → x.parent = some q) :
    b.roots = ids ∧ b.Stands r q := by
  induction fuel generalizing ids b q with
  | zero =>
    cases ids with
    | nil =>
      cases h
      exact ⟨rfl, trivial⟩
    | cons id later => cases h
  | succ fuel ih =>
    cases ids with
    | nil =>
      cases h
      exact ⟨rfl, trivial⟩
    | cons id later =>
      simp only [gather, Option.bind_eq_bind, Option.bind_eq_some_iff] at h
      obtain ⟨x, hx, script, hscript, children, hc, rest, hlater, hb⟩ := h
      cases hb
      obtain ⟨hroots, hstands⟩ := ih (q := id) hc (by
        intro c hmem y hy
        obtain ⟨y', hy', hparent⟩ := hl.child hx hmem
        rw [hy] at hy'
        cases hy'
        exact hparent)
      obtain ⟨hroots', hstands'⟩ := ih hlater fun a ha => hq a (List.mem_cons_of_mem _ ha)
      refine ⟨congrArg (id :: ·) hroots', ⟨x.origin, ?_⟩, hstands, hstands'⟩
      have hparent := hq id (List.mem_cons_self ..) x hx
      rw [hx, hroots, ← hscript, ← hparent]

end Brood

/-! ### Items of a sweep -/

/-- What waits on the stack while descendants are made to exit. -/
inductive SweepItem (C : Type) where
  /-- A forced return that has not begun, with the children that it took over. -/
  | exit (id : RoutineId) (script : Script C) (children : Brood C)
  /-- A result that is kept back. -/
  | settled (id : RoutineId) (stored : Outcome Value)

namespace SweepItem

def id : SweepItem C → RoutineId
  | exit id _ _ => id
  | settled id _ => id

/-- The place of an item on the stack. -/
def entry (item : SweepItem C) : StackEntry := .routine item.id

/-- The routines that an item stands for. -/
def ids : SweepItem C → List RoutineId
  | exit id _ children => id :: children.ids
  | settled id _ => [id]

/-- The exits that an item stands for. -/
def exits : SweepItem C → List (RoutineId × Script C)
  | exit id script children => (id, script) :: children.exits
  | settled _ _ => []

/-- How many turns an item takes at most. -/
def turns : SweepItem C → Nat
  | exit _ _ children => 2 * children.size + 2
  | settled _ _ => 1

/-- The item's routine is live, with what it carries. -/
def Stands (r : Roster (Routine C)) : SweepItem C → Prop
  | exit id script children =>
    r.find? id = some (Scheduler.wrapper script children.roots) ∧ children.Stands r id
  | settled id stored => r.find? id = some ⟨.settled, some (.settled stored), none, []⟩

/-- The forced returns of siblings, the last one first. -/
def ofBrood : Brood C → List (SweepItem C)
  | .nil => []
  | .cons id script children later => ofBrood later ++ [exit id.next script children]

theorem exits_ofBrood (b : Brood C) : (ofBrood b).flatMap exits = b.exits := by
  induction b with
  | nil => rfl
  | cons id script children later _ ih => simp [ofBrood, Brood.exits, exits, ih]

theorem turns_ofBrood (b : Brood C) : ((ofBrood b).map turns).sum = 2 * b.size := by
  induction b with
  | nil => rfl
  | cons id script children later _ ih =>
    simp [ofBrood, Brood.size, turns, ih]
    omega

theorem Stands.live {r : Roster (Routine C)} {item : SweepItem C} (h : item.Stands r) :
    ∀ a ∈ item.ids, ∃ x, r.find? a = some x := by
  cases item with
  | exit id script children =>
    intro a ha
    rcases List.mem_cons.mp ha with rfl | ha
    · exact ⟨_, h.1⟩
    · exact h.2.live a ha
  | settled id stored =>
    intro a ha
    rw [ids, List.mem_singleton] at ha
    exact ⟨_, ha ▸ h⟩

theorem Stands.congr {r r' : Roster (Routine C)} {item : SweepItem C} (h : item.Stands r)
    (hfind : ∀ a ∈ item.ids, r'.find? a = r.find? a) : item.Stands r' := by
  cases item with
  | exit id script children =>
    refine ⟨(hfind id (List.mem_cons_self ..)).trans h.1, h.2.congr ?_⟩
    exact fun a ha => hfind a (List.mem_cons_of_mem _ ha)
  | settled id stored => exact (hfind id (List.mem_singleton.mpr rfl)).trans h

end SweepItem

namespace Scheduler

/-! ### Bystanders -/

/-- The identifiers of the slots of some routines. -/
def InSlots (ids : List RoutineId) (a : RoutineId) : Prop := ∃ b ∈ ids, b.index = a.index

theorem InSlots.of_mem {ids : List RoutineId} {a : RoutineId} (h : a ∈ ids) : InSlots ids a :=
  ⟨a, h, rfl⟩

theorem inSlots_cons {b a : RoutineId} {ids : List RoutineId} :
    InSlots (b :: ids) a ↔ b.index = a.index ∨ InSlots ids a := by
  simp [InSlots]

theorem inSlots_append {a : RoutineId} {ids ids' : List RoutineId} :
    InSlots (ids ++ ids') a ↔ InSlots ids a ∨ InSlots ids' a := by
  simp [InSlots, or_and_right, exists_or]

@[simp] theorem inSlots_nil {a : RoutineId} : ¬ InSlots [] a := fun ⟨_, h, _⟩ => List.not_mem_nil h

@[simp] theorem inSlots_singleton {a b : RoutineId} : InSlots [b] a ↔ b.index = a.index := by
  simp [InSlots]

theorem InSlots.mono {ids ids' : List RoutineId} {a : RoutineId} (h : InSlots ids a)
    (hsub : ∀ b ∈ ids, b ∈ ids') : InSlots ids' a := by
  obtain ⟨b, hb, hindex⟩ := h
  exact ⟨b, hsub b hb, hindex⟩

/-- What is left of routine `a`, which was `x`, when `id` is gone, whose parent was
    `parent`. -/
def struck (id : RoutineId) (parent : Option RoutineId) (a : RoutineId) (x : Routine C) :
    Routine C :=
  { x with children := if parent = some a then x.children.erase id else x.children }

@[simp] theorem struck_none (id a : RoutineId) (x : Routine C) : struck id none a x = x := rfl

/-- The routines on `rest` that are in none of these slots. -/
def Apart (slots : RoutineId → Prop) (rest : List StackEntry) (a : RoutineId) : Prop :=
  .routine a ∈ rest ∧ ¬ slots a

/-- From routine `a` parent links lead up to one of `base`, with nobody in these slots on
    the way. -/
inductive Under (slots base : RoutineId → Prop) (s : Scheduler C) : RoutineId → Prop where
  | on {a : RoutineId} {x : Routine C} (live : s.routines.find? a = some x) (there : base a) :
      Under slots base s a
  | hangs {a q : RoutineId} {x : Routine C} (live : s.routines.find? a = some x) (outside : ¬ slots a)
      (parent : x.parent = some q) (above : Under slots base s q) : Under slots base s a

/-- What becomes of the routines outside of some slots. Those of `base` stay, and
    whatever is under them at most loses a parent that is not. If `strict` holds, nobody
    does. Apart from that, each is changed by `f`. -/
structure Beside (strict : Prop) (slots base : RoutineId → Prop)
    (f : RoutineId → Routine C → Routine C) (s t : Scheduler C) : Prop where
  stays : ∀ a x, base a → s.routines.find? a = some x → ∃ y, t.routines.find? a = some y
  waiting : ∀ a x, ¬ slots a → Under slots base s a → s.routines.find? a = some x →
    ∃ parent, t.routines.find? a = some { f a x with parent } ∧
      ∀ q, x.parent = some q → Under slots base s q → parent = some q
  exact : strict → ∀ a, ¬ slots a → t.routines.find? a = (s.routines.find? a).map (f a)

section Beside

variable {strict : Prop} {slots slots' base base' : RoutineId → Prop} {rest : List StackEntry}
  {f : RoutineId → Routine C → Routine C} {s t u : Scheduler C}

theorem Under.live {a : RoutineId} (h : Under slots base s a) : ∃ x, s.routines.find? a = some x := by
  cases h with
  | on live => exact ⟨_, live⟩
  | hangs live => exact ⟨_, live⟩

theorem Under.mono {a : RoutineId} (h : Under slots' base' s a) (hslots : ∀ a, slots a → slots' a)
    (hbase : ∀ a x, s.routines.find? a = some x → base' a → base a) : Under slots base s a := by
  induction h with
  | on live there => exact .on live (hbase _ _ live there)
  | hangs live outside parent _ ih => exact .hangs live (fun hs => outside (hslots _ hs)) parent ih

/-- Where everyone outside of the slots is as before, they are under the same ones. -/
theorem Under.congr {a : RoutineId} (h : Under slots base s a) (hbase : ∀ a, base a → ¬ slots a)
    (hsame : ∀ a, ¬ slots a → t.routines.find? a = s.routines.find? a) : Under slots base t a := by
  induction h with
  | on live there => exact .on ((hsame _ (hbase _ there)).trans live) there
  | hangs live outside parent _ ih => exact .hangs ((hsame _ outside).trans live) outside parent ih

theorem Beside.under (h : Beside strict slots base f s t) {a : RoutineId}
    (ha : Under slots base s a) : Under slots base t a := by
  induction ha with
  | on live there =>
    obtain ⟨y, hy⟩ := h.stays _ _ there live
    exact .on hy there
  | hangs live outside parent above ih =>
    obtain ⟨parent', hy, hparent⟩ := h.waiting _ _ outside (.hangs live outside parent above) live
    exact .hangs hy outside (hparent _ parent above) ih

theorem Beside.of_find? (hbase : ∀ a, base a → ¬ slots a) (hf : ∀ a x, (f a x).parent = x.parent)
    (h : ∀ a, ¬ slots a → t.routines.find? a = (s.routines.find? a).map (f a)) :
    Beside strict slots base f s t where
  stays a x ha hx := ⟨f a x, by rw [h a (hbase a ha), hx]; rfl⟩
  waiting a x hnot _ hx :=
    ⟨(f a x).parent, by rw [h a hnot, hx]; rfl, fun q hq _ => (hf a x).trans hq⟩
  exact _ := h

/-- Nobody outside of the slots has changed. -/
theorem Beside.of_others
    (hstays : ∀ a x, base a → s.routines.find? a = some x → ∃ y, t.routines.find? a = some y)
    (h : ∀ a, ¬ slots a → t.routines.find? a = s.routines.find? a) :
    Beside strict slots base (fun _ x => x) s t where
  stays := hstays
  waiting a x hnot _ hx := ⟨x.parent, (h a hnot).trans hx, fun q hq _ => hq⟩
  exact _ a hnot := by rw [h a hnot, Option.map_id']

theorem Beside.of_same (h : t.routines = s.routines) :
    Beside strict slots base (fun _ x => x) s t :=
  .of_others (fun a x _ hx => ⟨x, by rw [h, hx]⟩) fun a _ => by rw [h]

/-- A routine in one of the slots is changed. -/
theorem Beside.of_modify {X : RoutineId} {g : Routine C → Routine C} (hX : slots X)
    (h : t.routines = s.routines.modify X g) : Beside strict slots base (fun _ x => x) s t := by
  refine .of_others (fun a x _ hx => ?_) fun a hnot => ?_
  · rw [h, Roster.find?_modify, hx]
    split <;> exact ⟨_, rfl⟩
  · rw [h, Roster.find?_modify, if_neg]
    rintro rfl
    exact hnot hX

/-- One change after another; the second does not look at parents. -/
theorem Beside.comp {g : RoutineId → Routine C → Routine C} (h : Beside strict slots base f s t)
    (h' : Beside strict slots base g t u)
    (hg : ∀ a x q q', { g a { x with parent := q } with parent := q' } = { g a x with parent := q' }) :
    Beside strict slots base (fun a x => g a (f a x)) s u where
  stays a x ha hx := by
    obtain ⟨y, hy⟩ := h.stays a x ha hx
    exact h'.stays a y ha hy
  waiting a x hnot hunder hx := by
    obtain ⟨parent, hy, hparent⟩ := h.waiting a x hnot hunder hx
    obtain ⟨parent', hz, hparent'⟩ := h'.waiting a _ hnot (h.under hunder) hy
    exact ⟨parent', hz.trans (congrArg some (hg ..)),
      fun q hq habove => hparent' q (hparent q hq habove) (h.under habove)⟩
  exact hstrict a hnot := by
    rw [h'.exact hstrict a hnot, h.exact hstrict a hnot, Option.map_map]
    rfl

theorem Beside.trans (h : Beside strict slots base f s t)
    (h' : Beside strict slots base (fun _ x => x) t u) : Beside strict slots base f s u :=
  h.comp h' fun _ _ _ _ => rfl

theorem Beside.mono (h : Beside strict slots base f s t) (hslots : ∀ a, slots a → slots' a)
    (hbase : ∀ a x, s.routines.find? a = some x → base' a → base a) :
    Beside strict slots' base' f s t where
  stays a x ha hx := h.stays a x (hbase a x hx ha) hx
  waiting a x hnot hunder hx := by
    obtain ⟨parent, hy, hparent⟩ :=
      h.waiting a x (fun hs => hnot (hslots a hs)) (hunder.mono hslots hbase) hx
    exact ⟨parent, hy, fun q hq habove => hparent q hq (habove.mono hslots hbase)⟩
  exact hstrict a hnot := h.exact hstrict a fun hs => hnot (hslots a hs)

/-- A sweep lets those stay that are on the stack, and whatever is under them. -/
theorem Pruned.beside (h : Pruned s t) (hbase : ∀ a, base a → .routine a ∈ s.stack)
    (hsame : strict → t.routines = s.routines) : Beside strict slots base (fun _ x => x) s t := by
  have hanchored : ∀ {a}, Under slots base s a → Anchored s a := by
    intro a ha
    induction ha with
    | on live there => exact .onStack live (List.contains_iff_mem.mpr (hbase _ there))
    | hangs live _ parent _ ih => exact .under live parent ih
  refine ⟨fun a x ha hx => ?_, fun a x _ hunder hx => ?_, fun hstrict a _ => ?_⟩
  · rcases h.keeps a x (hanchored (.on hx ha)) hx with hy | ⟨hy, -⟩
    · exact ⟨x, hy⟩
    · exact ⟨_, hy⟩
  · rcases h.keeps a x (hanchored hunder) hx with hy | ⟨hy, hnot⟩
    · exact ⟨x.parent, hy, fun q hq _ => hq⟩
    · exact ⟨none, hy, fun q hq habove => absurd (hanchored habove) (hnot q hq)⟩
  · rw [hsame hstrict, Option.map_id']

/-- What a turn does that begins with some slots taken and ends with others: of the
    first, the ones that are not taken in the end are vacant then, if `strict` holds. -/
structure Turned (strict : Prop) (ids ids' : List RoutineId) (rest : List StackEntry)
    (f : RoutineId → Routine C → Routine C) (s t : Scheduler C) : Prop where
  tidy : t.Tidy
  beside : Beside strict (InSlots ids) (Apart (InSlots ids) rest) f s t
  vacant : strict → ∀ a, InSlots ids a → ¬ InSlots ids' a → t.routines.find? a = none

variable {ids ids' ids'' : List RoutineId}

theorem Turned.trans (h : Turned strict ids ids' rest f s t)
    (h' : Turned strict ids' ids'' rest (fun _ x => x) t u)
    (hsub : ∀ a, InSlots ids' a → InSlots ids a) : Turned strict ids ids'' rest f s u where
  tidy := h'.tidy
  beside := h.beside.trans (h'.beside.mono hsub fun a _ _ ha => ⟨ha.1, fun hs => ha.2 (hsub a hs)⟩)
  vacant hstrict a ha hnot := by
    by_cases hmid : InSlots ids' a
    · exact h'.vacant hstrict a hmid hnot
    · rw [h'.beside.exact hstrict a hmid, h.vacant hstrict a ha hmid]
      rfl

/-- What happens in these slots beforehand makes no difference either. -/
theorem Turned.of_modify (h : Turned strict ids ids' rest f t u)
    (hsame : ∀ a, ¬ InSlots ids a → t.routines.find? a = s.routines.find? a) :
    Turned strict ids ids' rest f s u where
  tidy := h.tidy
  beside :=
    { stays := fun a x ha hx => h.beside.stays a x ha ((hsame a ha.2).trans hx)
      waiting := fun a x hnot hunder hx => by
        have hcongr : ∀ {b}, Under (InSlots ids) (Apart (InSlots ids) rest) s b →
            Under (InSlots ids) (Apart (InSlots ids) rest) t b :=
          fun hb => hb.congr (fun _ hb => hb.2) hsame
        obtain ⟨parent, hy, hparent⟩ :=
          h.beside.waiting a x hnot (hcongr hunder) ((hsame a hnot).trans hx)
        exact ⟨parent, hy, fun q hq habove => hparent q hq (hcongr habove)⟩
      exact := fun hstrict a hnot => (h.beside.exact hstrict a hnot).trans (by rw [hsame a hnot]) }
  vacant := h.vacant

/-- Slots that stay taken make no difference. -/
theorem Turned.framed (h : Turned strict ids ids' rest f s t) (tail : List RoutineId) :
    Turned strict (ids ++ tail) (ids' ++ tail) rest f s t where
  tidy := h.tidy
  beside := h.beside.mono (fun a ha => inSlots_append.mpr (Or.inl ha)) fun a _ _ ha =>
    ⟨ha.1, fun hs => ha.2 (inSlots_append.mpr (Or.inl hs))⟩
  vacant hstrict a ha hnot := by
    rw [inSlots_append, not_or] at hnot
    exact h.vacant hstrict a ((inSlots_append.mp ha).resolve_right hnot.2) hnot.1

end Beside

/-! ### The work list -/

/-- The items are on top of the stack, above `rest`, and no routine belongs to
    two of them. -/
structure Awaits (s : Scheduler C) (items : List (SweepItem C)) (rest : List StackEntry) :
    Prop where
  stack : s.stack = items.map SweepItem.entry ++ rest
  stands : ∀ item ∈ items, item.Stands s.routines
  nodup : (items.flatMap SweepItem.ids).Nodup

variable {s : Scheduler C} {items : List (SweepItem C)} {rest : List StackEntry}

theorem Awaits.live (h : Awaits s items rest) :
    ∀ a ∈ items.flatMap SweepItem.ids, ∃ x, s.routines.find? a = some x := by
  intro a ha
  obtain ⟨item, hitem, ha⟩ := List.mem_flatMap.mp ha
  exact (h.stands item hitem).live a ha

theorem Awaits.congr {t : Scheduler C} (h : Awaits s items rest) (hstack : t.stack = s.stack)
    (hfind : ∀ a ∈ items.flatMap SweepItem.ids, t.routines.find? a = s.routines.find? a) :
    Awaits t items rest := by
  refine ⟨hstack.trans h.stack, ?_, h.nodup⟩
  intro item hitem
  refine (h.stands item hitem).congr ?_
  exact fun a ha => hfind a (List.mem_flatMap.mpr ⟨item, hitem, ha⟩)

/-- One child becomes the topmost item. -/
theorem Awaits.scheduleExit (h : Awaits s items rest) (hs : s.routines.Sound)
    (hroom : s.routines.slots.size ≤ 2 ^ 32) {id q : RoutineId} {script : Script C}
    {children later : Brood C} (hb : (Brood.cons id script children later).Stands s.routines q)
    (hnodup : ((Brood.cons id script children later).ids ++ items.flatMap SweepItem.ids).Nodup) :
    Awaits (s.scheduleExit id) (.exit id.next script children :: items) rest ∧
      later.Stands (s.scheduleExit id).routines q ∧
      (later.ids ++ (SweepItem.exit id.next script children :: items).flatMap
        SweepItem.ids).Nodup := by
  obtain ⟨⟨origin, hid⟩, hc, hl⟩ := hb
  have hlive : ∀ d ∈ children.roots, ∃ y, s.routines.find? d = some y :=
    fun d hd => hc.live d (children.roots_subset_ids d hd)
  have hfind := find?_scheduleExit hs hroom hid rfl hlive
  obtain ⟨-, -, -, -, hstack⟩ := scheduleExit_spec hs hid rfl
  have hnext : ∀ {d y}, s.routines.find? d = some y → d ≠ id.next := by
    rintro d y hd rfl
    rw [Roster.find?_next hid] at hd
    cases hd
  have hforth : ∀ {d y}, d ≠ id → s.routines.find? d = some y →
      (s.scheduleExit id).routines.find? d =
        some { y with parent := if d ∈ children.roots then some id.next else y.parent } := by
    intro d y hd hy
    rw [hfind, if_neg (hnext hy), if_neg hd, hy, Option.map_some]
  have hsame : ∀ {d}, (∃ y, s.routines.find? d = some y) → d ≠ id → d ∉ children.roots →
      (s.scheduleExit id).routines.find? d = s.routines.find? d := by
    rintro d ⟨y, hy⟩ hd hnot
    rw [hforth hd hy, hy, if_neg hnot]
  simp only [Brood.ids, List.cons_append, List.nodup_cons] at hnodup
  obtain ⟨hnotin, hnodup⟩ := hnodup
  rw [List.append_assoc, List.mem_append, List.mem_append, not_or, not_or] at hnotin
  rw [List.append_assoc, List.nodup_append] at hnodup
  obtain ⟨hnodupc, hnoduprest, hdisjoint⟩ := hnodup
  have hne : ∀ {d}, d ∈ children.ids ∨ d ∈ later.ids ∨ d ∈ items.flatMap SweepItem.ids → d ≠ id := by
    rintro d hd rfl
    rcases hd with hd | hd | hd
    · exact hnotin.1 hd
    · exact hnotin.2.1 hd
    · exact hnotin.2.2 hd
  have hapart : ∀ {d}, d ∈ later.ids ++ items.flatMap SweepItem.ids → d ∉ children.roots :=
    fun hd hmem => hdisjoint _ (children.roots_subset_ids _ hmem) _ hd rfl
  have hlater : ∀ d ∈ later.ids, (s.scheduleExit id).routines.find? d = s.routines.find? d :=
    fun d hd => hsame (hl.live d hd) (hne (Or.inr (Or.inl hd)))
      (hapart (List.mem_append_left _ hd))
  have hitems : ∀ d ∈ items.flatMap SweepItem.ids,
      (s.scheduleExit id).routines.find? d = s.routines.find? d :=
    fun d hd => hsame (h.live d hd) (hne (Or.inr (Or.inr hd)))
      (hapart (List.mem_append_right _ hd))
  have hfresh : id.next ∉ children.ids ++ (later.ids ++ items.flatMap SweepItem.ids) := by
    intro hmem
    have hlives : ∃ y, s.routines.find? id.next = some y := by
      rcases List.mem_append.mp hmem with hmem | hmem
      · exact hc.live _ hmem
      · rcases List.mem_append.mp hmem with hmem | hmem
        · exact hl.live _ hmem
        · exact h.live _ hmem
    obtain ⟨y, hy⟩ := hlives
    exact hnext hy rfl
  refine ⟨⟨?_, ?_, ?_⟩, hl.congr hlater, ?_⟩
  · rw [hstack, h.stack]
    rfl
  · intro item hitem
    rcases List.mem_cons.mp hitem with rfl | hitem
    · refine ⟨by rw [hfind, if_pos rfl], hc.adopted hnodupc ?_ ?_⟩
      · intro a ha x hx
        rw [hforth (hne (Or.inl (children.roots_subset_ids a ha))) hx, if_pos ha]
      · exact fun a ha hnot => hsame (hc.live a ha) (hne (Or.inl ha)) hnot
    · refine (h.stands item hitem).congr ?_
      exact fun a ha => hitems a (List.mem_flatMap.mpr ⟨item, hitem, ha⟩)
  · rw [List.flatMap_cons, SweepItem.ids, List.cons_append, List.nodup_cons, List.nodup_append]
    refine ⟨?_, hnodupc, h.nodup, ?_⟩
    · intro hmem
      refine hfresh ?_
      rcases List.mem_append.mp hmem with hmem | hmem
      · exact List.mem_append_left _ hmem
      · exact List.mem_append_right _ (List.mem_append_right _ hmem)
    · exact fun a ha b hb => hdisjoint a ha b (List.mem_append_right _ hb)
  · have hperm : (later.ids ++ (SweepItem.exit id.next script children :: items).flatMap
        SweepItem.ids).Perm
          (id.next :: (children.ids ++ (later.ids ++ items.flatMap SweepItem.ids))) := by
      rw [List.flatMap_cons, SweepItem.ids, List.cons_append]
      refine List.perm_middle.trans (List.Perm.cons _ ?_)
      rw [← List.append_assoc, ← List.append_assoc]
      exact List.Perm.append_right _ List.perm_append_comm
    rw [hperm.nodup_iff, List.nodup_cons]
    exact ⟨hfresh, List.nodup_append.mpr ⟨hnodupc, hnoduprest, hdisjoint⟩⟩

/-- All siblings become items, the last one topmost. -/
theorem Awaits.scheduleExits (b : Brood C) {q : RoutineId} (h : Awaits s items rest)
    (hs : s.routines.Sound) (hroom : s.routines.slots.size ≤ 2 ^ 32) (hb : b.Stands s.routines q)
    (hnodup : (b.ids ++ items.flatMap SweepItem.ids).Nodup) :
    Awaits (b.roots.foldl Scheduler.scheduleExit s) (SweepItem.ofBrood b ++ items) rest ∧
      (b.roots.foldl Scheduler.scheduleExit s).routines.slots.size = s.routines.slots.size ∧
      (∀ a, s.routines.vacated a ≤
        (b.roots.foldl Scheduler.scheduleExit s).routines.vacated a) ∧
      (∀ a ∈ b.roots, s.routines.vacated a <
        (b.roots.foldl Scheduler.scheduleExit s).routines.vacated a) ∧
      ∀ a, ¬ InSlots b.ids a →
        (b.roots.foldl Scheduler.scheduleExit s).routines.find? a = s.routines.find? a := by
  induction b generalizing s items with
  | nil => exact ⟨h, rfl, fun _ => Nat.le_refl _, nofun, fun _ _ => rfl⟩
  | cons id script children later _ ih =>
    obtain ⟨hone, hlater, hnodup'⟩ := h.scheduleExit hs hroom hb hnodup
    obtain ⟨⟨origin, hid⟩, hchildren, -⟩ := hb
    obtain ⟨hs', hslots, hvacated, hless, -⟩ := scheduleExit_spec hs hid rfl
    obtain ⟨hall, hslots', hvacated', hless', hsame⟩ := ih hone hs' (hslots ▸ hroom) hlater hnodup'
    rw [Brood.roots, List.foldl_cons]
    refine ⟨?_, hslots'.trans hslots, ?_, ?_, ?_⟩
    · rw [SweepItem.ofBrood, List.append_assoc]
      exact hall
    · exact fun a => Nat.le_trans (hvacated a) (hvacated' a)
    · intro a ha
      rcases List.mem_cons.mp ha with rfl | ha
      · exact Nat.lt_of_lt_of_le hless (hvacated' a)
      · exact Nat.lt_of_le_of_lt (hvacated a) (hless' a ha)
    · intro a ha
      have hnot : ∀ b, b = id ∨ b ∈ children.ids ∨ b ∈ later.ids → b.index ≠ a.index := by
        intro b hb hindex
        exact ha ⟨b, by simpa [Brood.ids] using hb, hindex⟩
      rw [hsame a fun ⟨b, hb, hindex⟩ => hnot b (Or.inr (Or.inr hb)) hindex,
        find?_scheduleExit hs hroom hid rfl
          (fun d hd => hchildren.live d (children.roots_subset_ids d hd)),
        if_neg fun h => hnot id (Or.inl rfl) (by rw [h]; rfl),
        if_neg fun h => hnot id (Or.inl rfl) (by rw [h])]
      have hroots : a ∉ children.roots := fun hmem =>
        hnot a (Or.inr (Or.inl (children.roots_subset_ids a hmem))) rfl
      simp only [if_neg hroots, Option.map_id']

/-- What waits once a routine with these children has finished with `o`. -/
def itemsOf (b : Brood C) (id : RoutineId) (o : Outcome Value) : List (SweepItem C) :=
  match b with
  | .nil => []
  | b => SweepItem.ofBrood b ++ [.settled id.next o]

/-- A forced return is in the slot of its routine. -/
theorem inSlots_ofBrood (b : Brood C) (a : RoutineId) :
    InSlots ((SweepItem.ofBrood b).flatMap SweepItem.ids) a ↔ InSlots b.ids a := by
  induction b with
  | nil => exact Iff.rfl
  | cons id script children later _ ih =>
    rw [SweepItem.ofBrood, List.flatMap_append, inSlots_append, ih, List.flatMap_singleton,
      SweepItem.ids, Brood.ids, inSlots_cons, inSlots_cons, inSlots_append]
    exact or_left_comm.trans (or_congr Iff.rfl or_comm)

theorem inSlots_itemsOf (b : Brood C) (id : RoutineId) (o : Outcome Value) (a : RoutineId) :
    InSlots ((itemsOf b id o).flatMap SweepItem.ids) a ↔ b ≠ .nil ∧ InSlots (id :: b.ids) a := by
  cases b with
  | nil => exact ⟨fun h => (inSlots_nil h).elim, fun h => (h.1 rfl).elim⟩
  | cons c script children later =>
    rw [itemsOf, List.flatMap_append, inSlots_append, inSlots_ofBrood, inSlots_cons, or_comm]
    · refine (or_congr ?_ Iff.rfl).trans (and_iff_right nofun).symm
      rw [List.flatMap_singleton, SweepItem.ids, inSlots_cons]
      exact or_iff_left inSlots_nil
    · exact nofun

/-- A finished routine leaves the exits of its children on the stack, and its
    result beneath them. -/
theorem Awaits.conclude (h : Awaits s items rest) (hl : Linked s.routines)
    (hroom : s.routines.slots.size ≤ 2 ^ 32) {id : RoutineId} {r : Routine C} {b : Brood C}
    (hid : s.routines.find? id = some r) (hchildren : r.children = b.roots)
    (hb : b.Stands s.routines id)
    (hnodup : (id :: (b.ids ++ items.flatMap SweepItem.ids)).Nodup)
    (hparent : ∀ q, r.parent = some q → q ∉ b.ids ++ items.flatMap SweepItem.ids)
    (script : Script C) (o : Outcome Value) :
    Awaits (s.conclude id script o) (itemsOf b id o ++ items) rest ∧
      (s.conclude id script o).register = o ∧
      (s.conclude id script o).routines.slots.size = s.routines.slots.size ∧
      (∀ a ∈ id :: b.roots,
        s.routines.vacated a < (s.conclude id script o).routines.vacated a) ∧
      (∀ a, ¬ InSlots (id :: b.ids) a → (s.conclude id script o).routines.find? a =
        (s.routines.find? a).map (struck id r.parent a)) ∧
      (b = .nil → ∀ a, a.index = id.index → (s.conclude id script o).routines.find? a = none) := by
  obtain ⟨hnotin, hnodup⟩ := List.nodup_cons.mp hnodup
  -- neither the children nor the items lose anything when the routine is taken out
  have hkeeps : ∀ {a}, a ∈ b.ids ++ items.flatMap SweepItem.ids →
      (if a = id then none
        else (s.routines.find? a).map fun x =>
          { x with children := if r.parent = some a then x.children.erase id else x.children }) =
        s.routines.find? a := by
    intro a ha
    have hne : a ≠ id := by
      rintro rfl
      exact hnotin ha
    have hnp : ¬ r.parent = some a := fun hp => hparent a hp ha
    rw [if_neg hne]
    simp only [if_neg hnp]
    cases s.routines.find? a <;> rfl
  cases b with
  | nil =>
    obtain ⟨hstack, hregister, hslots, hless, hfind⟩ :=
      conclude_childless_spec hl.sound hid hchildren script o
    refine ⟨h.congr hstack ?_, hregister, hslots, ?_, ?_, ?_⟩
    · exact fun a ha => (hfind a).trans (hkeeps (List.mem_append_right _ ha))
    · intro a ha
      rw [Brood.roots, List.mem_singleton] at ha
      exact ha ▸ hless
    · intro a ha
      refine (hfind a).trans (if_neg ?_)
      rintro rfl
      exact ha (.of_mem (List.mem_cons_self ..))
    · intro _ a hindex
      rw [hfind]
      split
      · rfl
      · next hne =>
        cases hx : s.routines.find? a with
        | none => rfl
        | some x => exact absurd (Roster.eq_of_index_eq hx hid hindex) hne
  | cons c cs children later =>
    have hsome : r.children ≠ [] := by
      rw [hchildren]
      exact List.cons_ne_nil _ _
    obtain ⟨t, heq, hstack, hsound, hslots, hless, hvacated, hfind⟩ :=
      conclude_children_spec hl.sound hroom hid hsome script o
    have hlive : ∀ a ∈ (Brood.cons c cs children later).ids ++ items.flatMap SweepItem.ids,
        ∃ x, s.routines.find? a = some x := by
      intro a ha
      rcases List.mem_append.mp ha with ha | ha
      · exact hb.live a ha
      · exact h.live a ha
    have hsame : ∀ a ∈ (Brood.cons c cs children later).ids ++ items.flatMap SweepItem.ids,
        t.routines.find? a = s.routines.find? a ∧ a ≠ id.next := by
      intro a ha
      have hne : a ≠ id.next := by
        rintro rfl
        obtain ⟨x, hx⟩ := hlive _ ha
        rw [Roster.find?_next hid] at hx
        cases hx
      exact ⟨by rw [hfind, if_neg hne, hkeeps ha], hne⟩
    have hwaits : Awaits t (.settled id.next o :: items) rest := by
      refine ⟨by rw [hstack, h.stack]; rfl, ?_, ?_⟩
      · intro item hitem
        rcases List.mem_cons.mp hitem with rfl | hitem
        · exact (hfind id.next).trans (if_pos rfl)
        · refine (h.stands item hitem).congr ?_
          exact fun a ha => (hsame a (List.mem_append_right _
            (List.mem_flatMap.mpr ⟨item, hitem, ha⟩))).1
      · rw [List.flatMap_cons, SweepItem.ids, List.singleton_append, List.nodup_cons]
        exact ⟨fun ha => (hsame _ (List.mem_append_right _ ha)).2 rfl, h.nodup⟩
    have hstands : (Brood.cons c cs children later).Stands t.routines id :=
      hb.congr fun a ha => (hsame a (List.mem_append_left _ ha)).1
    have hnodup' : ((Brood.cons c cs children later).ids ++
        (SweepItem.settled id.next o :: items).flatMap SweepItem.ids).Nodup := by
      rw [List.flatMap_cons, SweepItem.ids, List.singleton_append,
        List.perm_middle.nodup_iff, List.nodup_cons]
      exact ⟨fun ha => (hsame _ ha).2 rfl, hnodup⟩
    obtain ⟨hall, hslots', hvacated', hless', hsame'⟩ :=
      hwaits.scheduleExits _ hsound (hslots ▸ hroom) hstands hnodup'
    rw [heq, hchildren]
    refine ⟨?_, rfl, hslots'.trans hslots, ?_, ?_, nofun⟩
    · have hitems : itemsOf (Brood.cons c cs children later) id o ++ items =
          SweepItem.ofBrood (Brood.cons c cs children later) ++ (.settled id.next o :: items) := by
        simp [itemsOf]
      rw [hitems]
      exact hall.congr rfl fun a _ => rfl
    · intro a ha
      rcases List.mem_cons.mp ha with rfl | ha
      · exact Nat.lt_of_lt_of_le hless (hvacated' a)
      · exact Nat.lt_of_le_of_lt (hvacated a) (hless' a ha)
    · intro a ha
      have hid' : ∀ d : RoutineId, d.index = id.index → a ≠ d := by
        rintro d hindex rfl
        exact ha ⟨id, List.mem_cons_self .., hindex.symm⟩
      refine (hsame' a fun h => ha (h.mono fun _ => List.mem_cons_of_mem _)).trans ?_
      rw [hfind, if_neg (hid' id.next rfl), if_neg (hid' id rfl)]
      rfl

/-! ### What a sweep leaves of the work list -/

/-- Descendants of an anchored routine are anchored, so a sweep leaves them as
    they are. -/
theorem find?_pruned_brood {t : Scheduler C} (h : Pruned s t) {b : Brood C} {q : RoutineId}
    (hb : b.Stands s.routines q) (hq : Anchored s q) :
    ∀ a ∈ b.ids, t.routines.find? a = s.routines.find? a := by
  induction b generalizing q with
  | nil => exact nofun
  | cons id script children later ihc ihl =>
    obtain ⟨⟨origin, hid⟩, hc, hl⟩ := hb
    have hanchored : Anchored s id := .under hid rfl hq
    intro a ha
    rcases List.mem_cons.mp ha with rfl | ha
    · rcases h.keeps _ _ hanchored hid with hsame | ⟨-, hnot⟩
      · exact hsame.trans hid.symm
      · exact absurd hq (hnot q rfl)
    · rcases List.mem_append.mp ha with ha | ha
      · exact ihc hc hanchored a ha
      · exact ihl hl hq a ha

theorem Awaits.pruned {t : Scheduler C} (h : Awaits s items rest) (hp : Pruned s t) :
    Awaits t items rest := by
  refine h.congr hp.shrunk.work.stack ?_
  intro a ha
  obtain ⟨item, hitem, ha⟩ := List.mem_flatMap.mp ha
  have hon : s.onStack item.id = true := by
    rw [onStack, h.stack, List.contains_iff_mem]
    exact List.mem_append_left _ (List.mem_map.mpr ⟨item, hitem, rfl⟩)
  -- an item has no parent to lose
  have hself : ∀ x, s.routines.find? item.id = some x → x.parent = none →
      Anchored s item.id ∧ t.routines.find? item.id = s.routines.find? item.id := by
    intro x hx hnone
    have hanchored : Anchored s item.id := .onStack hx hon
    refine ⟨hanchored, ?_⟩
    rcases hp.keeps _ _ hanchored hx with hsame | ⟨hcut, -⟩
    · exact hsame.trans hx.symm
    · rw [hcut, hx, ← hnone]
  have hstands := h.stands item hitem
  cases item with
  | exit id script children =>
    obtain ⟨hid, hc⟩ := hstands
    obtain ⟨hanchored, hsame⟩ := hself _ hid rfl
    rcases List.mem_cons.mp ha with rfl | ha
    · exact hsame
    · exact find?_pruned_brood hp hc hanchored a ha
  | settled id stored =>
    rw [SweepItem.ids, List.mem_singleton] at ha
    exact ha ▸ (hself _ hstands rfl).2

/-! ### Taking the top item -/

/-- A live routine on top of the stack is picked. -/
theorem pick_of_top {id : RoutineId} {tail : List StackEntry} {r : Routine C} {script : Script C}
    (hstack : s.stack = .routine id :: tail) (hid : s.routines.find? id = some r)
    (hscript : r.script = some script) :
    s.pick = (some (id, script),
      ({ s with stack := tail, current := some id }.modify id
        fun r => { r with script := none }).report (.resuming r.origin id)) := by
  rw [pick, hstack, pickFrom]
  simp only [hid, hscript]

/-- The other items wait while the top one is stepped. -/
theorem Awaits.picked {item : SweepItem C} (h : Awaits s (item :: items) rest)
    {t : Scheduler C} (hstack : t.stack = items.map SweepItem.entry ++ rest)
    (hroutines : t.routines = s.routines.modify item.id fun r => { r with script := none }) :
    Awaits t items rest := by
  have hnodup := h.nodup
  rw [List.flatMap_cons, List.nodup_append] at hnodup
  obtain ⟨-, hnodup, hdisjoint⟩ := hnodup
  refine ⟨hstack, ?_, hnodup⟩
  intro other hother
  refine (h.stands other (List.mem_cons_of_mem _ hother)).congr ?_
  intro a ha
  rw [hroutines, Roster.find?_modify, if_neg]
  rintro rfl
  refine hdisjoint item.id ?_ item.id (List.mem_flatMap.mpr ⟨other, hother, ha⟩) rfl
  cases item with
  | exit => exact List.mem_cons_self ..
  | settled => exact List.mem_singleton.mpr rfl

end Scheduler

/-! ### Turns of a sweep -/

/-- The failure of the last of these outcomes that is one, or else `o`. -/
def lastFailure (o : Outcome Value) : List (Outcome Value) → Outcome Value
  | [] => o
  | .success _ :: os => lastFailure o os
  | .failure e :: os => lastFailure (.failure e) os

theorem lastFailure_of_success {os : List (Outcome Value)} (h : ∀ r ∈ os, r.isSuccess = true)
    (o : Outcome Value) : lastFailure o os = o := by
  induction os with
  | nil => rfl
  | cons r os ih =>
    obtain ⟨hr, hos⟩ := List.forall_mem_cons.mp h
    cases r with
    | success v => exact ih hos
    | failure e => cases hr

/-- A script that was made to exit, and the outcome that it was done with. -/
structure ExitCall (C : Type) where
  id : RoutineId
  script : Script C
  outcome : Outcome Value

/-- What is seen of an exit. -/
def ExitCall.events (c : ExitCall C) : List (PassEvent C) :=
  [.exiting c.id c.script, .exited c.id c.outcome]

/-- Whether this is seen of an exit. -/
def PassEvent.ofExit : PassEvent C → Bool
  | .exiting _ _ => true
  | .exited _ _ => true
  | _ => false

/-- Nothing has been seen but exits. -/
abbrev ExitsOnly (evs : List (PassEvent C)) : Prop := ∀ e ∈ evs, e.ofExit = true

theorem exitsOnly_calls (calls : List (ExitCall C)) : ExitsOnly (calls.flatMap ExitCall.events) := by
  intro e he
  obtain ⟨c, -, he⟩ := List.mem_flatMap.mp he
  rcases List.mem_cons.mp he with rfl | he
  · rfl
  · rw [List.mem_singleton.mp he]
    rfl

/-- What a forced return that was fed `input` ends in when its script is done
    with `o`. -/
def exitResult (input o : Outcome Value) : Outcome Value :=
  (ForcedReturn.initial.next input).result o

namespace Machine

open Scheduler

variable {R : Type} {B : Behavior C R} {p : Nat} {K : List (Frame C R)} {s : Scheduler C}
  {m : Machine C R} {items : List (SweepItem C)} {rest : List StackEntry}

/-- How a turn ends: the pass is back at the head of the loop with these items
    and this result. -/
structure SweptTo (B : Behavior C R) (p : Nat) (K : List (Frame C R)) (s : Scheduler C)
    (m : Machine C R) (evs : List (PassEvent C)) (items : List (SweepItem C))
    (rest : List StackEntry) (o : Outcome Value) (n : Machine C R) (s' : Scheduler C) :
    Prop where
  reaches : Reaches B p m evs n
  head : AtHead p K s' n
  awaits : Awaits s' items rest
  register : s'.register = o
  slots : s'.routines.slots.size = s.routines.slots.size

/-- A routine with these children finishes while the items wait. -/
theorem Finishes.swept {id : RoutineId} {o : Outcome Value} (h : Finishes p K id o s m)
    (hreach : Reachable B m) (haw : Awaits s items rest)
    (hroom : s.routines.slots.size ≤ 2 ^ 32) {r : Routine C} {b : Brood C}
    (hid : s.routines.find? id = some r) (hchildren : r.children = b.roots)
    (hb : b.Stands s.routines id)
    (hnodup : (id :: (b.ids ++ items.flatMap SweepItem.ids)).Nodup)
    (hparent : ∀ q, r.parent = some q → q ∉ b.ids ++ items.flatMap SweepItem.ids)
    (hdrops : During B p K (· = []) (DropsReturn B p) (m.step B)) {strict : Prop}
    (hstill : strict → During B p K (· = []) (NoneUnclaimed p) (m.step B)) :
    ∃ n s', SweptTo B p K s (m.step B) [] (itemsOf b id o ++ items) rest o n s' ∧
      (∀ a ∈ id :: b.roots, s.routines.vacated a < s'.routines.vacated a) ∧
      Turned strict (id :: b.ids) ((itemsOf b id o).flatMap SweepItem.ids) rest
        (struck id r.parent) s s' := by
  have hlinked := hreach.linked h.scheduler hroom
  obtain ⟨script, hat⟩ := h.concludes (B := B)
  obtain ⟨hwaits, hregister, hslots, hless, hothers, hvacant⟩ :=
    haw.conclude hlinked hroom hid hchildren hb hnodup hparent script o
  have hlinked' : Linked ({ s.conclude id script o with reports := [] } : Scheduler C).routines :=
    (hreach.later (.step .refl)).linked hat.scheduler (hslots ▸ hroom)
  obtain ⟨n, s', hr, hhead, hpruned, htidy, hsame⟩ := hat.tidied hlinked' hdrops
  refine ⟨n, s', ⟨hr, hhead, ?_, ?_, ?_⟩, ?_, htidy, ?_, ?_⟩
  · have hsame : Awaits ({ s.conclude id script o with reports := [] } : Scheduler C)
        (itemsOf b id o ++ items) rest := hwaits.congr rfl fun _ _ => rfl
    exact hsame.pruned hpruned
  · exact hpruned.shrunk.work.register.trans hregister
  · exact hpruned.shrunk.slots.trans hslots
  · exact fun a ha => Nat.lt_of_lt_of_le (hless a ha) (hpruned.shrunk.vacated a)
  · have hfirst : Beside strict (InSlots (id :: b.ids)) (Apart (InSlots (id :: b.ids)) rest)
        (struck id r.parent) s { s.conclude id script o with reports := [] } :=
      .of_find? (fun _ ha => ha.2) (fun _ _ => rfl) hothers
    refine hfirst.trans (hpruned.beside ?_ fun hstrict => hsame (hstill hstrict))
    intro a ha
    show .routine a ∈ (s.conclude id script o).stack
    rw [hwaits.stack]
    exact List.mem_append_right _ ha.1
  · intro hstrict a ha hnot
    rw [hsame (hstill hstrict)]
    rw [inSlots_itemsOf, not_and'] at hnot
    have hnil := of_not_not (hnot ha)
    subst hnil
    rw [Brood.ids, inSlots_cons] at ha
    exact hvacant rfl a (ha.resolve_right inSlots_nil).symm

/-- The turn of a forced return: its script is made to exit, and its children
    are next. -/
theorem SweptTo.exit {good : Outcome Value → Prop} {w : RoutineId} {script : Script C}
    {children : Brood C}
    (h : AtHead p K s m) (hreach : Reachable B m)
    (haw : Awaits s (.exit w script children :: items) rest)
    (hroom : s.routines.slots.size ≤ 2 ^ 32)
    (hexits : During B p K (· = []) (ExitReturns B p good script) m)
    (hdrops : During B p K (fun evs => evs.length ≤ 2 ∧ ExitsOnly evs) (DropsReturn B p) m)
    {strict : Prop}
    (hstill : strict →
      During B p K (fun evs => evs.length ≤ 2 ∧ ExitsOnly evs) (NoneUnclaimed p) m) :
    ∃ o n s', good o ∧ SweptTo B p K s m [.exiting w script, .exited w o]
        (itemsOf children w (exitResult s.register o) ++ items) rest (exitResult s.register o) n s' ∧
      (∀ a ∈ w :: children.roots, s.routines.vacated a < s'.routines.vacated a) ∧
      Turned strict (w :: children.ids)
        ((itemsOf children w (exitResult s.register o)).flatMap SweepItem.ids) rest
        (fun _ x => x) s s' := by
  obtain ⟨hw, hchildren⟩ := haw.stands _ (List.mem_cons_self ..)
  have hstack : s.stack = .routine w :: (items.map SweepItem.entry ++ rest) :=
    haw.stack
  -- the wrapper is picked, and the script behind it is told to exit
  have hpick := pick_of_top hstack hw rfl
  have hfed := h.pick (B := B) hpick
  have hbegun := hfed.begins_exit (B := B)
  have hr := ((Reaches.refl (B := B) (p := p) m).unseen h.event?_head).unseen (by
    simp [event?, hfed.focus, hfed.control, Script.isUser])
  have hcall := hexits [] _ hr rfl (hbegun.atLoop (by simp [Frame.ofLoop])) hbegun.focus
  obtain ⟨n₁, focus, t, hr₁, hat₁, ⟨o, script', rfl, hgood⟩, hspared⟩ := hbegun.answered hcall
  rw [show event? p _ = some (PassEvent.exiting w script) by
    simp [event?, hbegun.focus, hbegun.control]] at hr₁
  have hr₁ := hr.trans hr₁
  have hr₂ := hr₁.seen (show event? p _ = some (.exited w o) by
    simp [event?, hat₁.focus, hat₁.control])
  have hat₂ := hat₁.exited (B := B)
  have hpair : ([PassEvent.exiting w script] ++ [PassEvent.exited w o]).length ≤ 2 ∧
      ExitsOnly ([PassEvent.exiting w script] ++ [PassEvent.exited w o]) := by
    refine ⟨Nat.le_refl 2, ?_⟩
    intro e he
    rcases List.mem_cons.mp he with rfl | he
    · rfl
    · rw [List.mem_singleton.mp he]
      rfl
  -- what the exit returned, and what the forced return was fed, are let go of
  obtain ⟨n₃, t₃, hr₃, hat₃, hspared₃⟩ := hat₂.dropped
    (hdrops _ _ hr₂ hpair (hat₂.atLoop (by simp [Frame.ofLoop])))
  have hr₃ := (hr₂.quietly hr₃).unseen (by simp [event?, hat₃.focus, hat₃.control])
  have hat₄ := hat₃.held (B := B)
  obtain ⟨n₅, t₅, hr₅, hat₅, hspared₅⟩ := hat₄.dropped
    (hdrops _ _ hr₃ hpair (hat₄.atLoop (by simp [Frame.ofLoop])))
  have hr₅ := hr₃.quietly hr₅
  have hr₆ := hr₅.unseen (by simp [event?, hat₅.focus, hat₅.control, Script.isUser])
  -- nothing has happened to the scheduler since the wrapper was picked
  obtain ⟨unhandled, unclaimed, reports, rfl⟩ := (hspared.trans hspared₃).trans hspared₅
  have hfinish : Finishes p K w (exitResult s.register o) _ n₅ := Or.inl ⟨_, hat₅⟩
  have hwaits := haw.picked (t := { ({ s with
      stack := items.map SweepItem.entry ++ rest,
      current := some w }.modify w
        fun r => { r with script := none }) with
    register := Outcome.unit, unhandled, unclaimed, reports }) rfl rfl
  have hnodup := haw.nodup
  rw [List.flatMap_cons, SweepItem.ids, List.cons_append] at hnodup
  obtain ⟨n, s', hswept, hless, hturned⟩ := hfinish.swept (hreach.later hr₅.later) hwaits
    (Nat.le_trans (Nat.le_of_eq (Roster.size_slots_modify _ _ _)) hroom)
    (r := { Scheduler.wrapper script children.roots with script := none }) (b := children)
    (by
      show (s.routines.modify w _).find? w = _
      rw [Roster.find?_modify, if_pos rfl, hw]
      rfl)
    rfl
    (by
      refine hchildren.congr fun a ha => ?_
      show (s.routines.modify w _).find? a = _
      rw [Roster.find?_modify, if_neg]
      rintro rfl
      exact (List.nodup_cons.mp hnodup).1 (List.mem_append_left _ ha))
    hnodup (fun _ hnone => by cases hnone)
    ((hdrops.later hr₆).weaken fun evs hevs => by rw [hevs]; exact hpair)
    (fun hstrict => ((hstill hstrict).later hr₆).weaken
      fun evs hevs => by rw [hevs]; exact hpair)
  refine ⟨o, n, s', hgood, ⟨hr₆.quietly hswept.reaches, hswept.head, hswept.awaits, hswept.register, ?_⟩,
    ?_, hturned.of_modify (fun a ha => ?_)⟩
  · exact hswept.slots.trans (Roster.size_slots_modify _ _ _)
  · intro a ha
    refine Nat.lt_of_le_of_lt (Nat.le_of_eq ?_) (hless a ha)
    exact (Roster.vacated_modify _ _ _ _).symm
  · show (s.routines.modify w _).find? a = _
    rw [Roster.find?_modify, if_neg]
    rintro rfl
    exact ha (.of_mem (List.mem_cons_self ..))

/-- The turn of a kept result: it goes on, or the failure that it was fed. -/
theorem SweptTo.settled {id : RoutineId} {stored : Outcome Value} (h : AtHead p K s m)
    (hreach : Reachable B m) (haw : Awaits s (.settled id stored :: items) rest)
    (hroom : s.routines.slots.size ≤ 2 ^ 32)
    (hdrops : During B p K (· = []) (DropsReturn B p) m) {strict : Prop}
    (hstill : strict → During B p K (· = []) (NoneUnclaimed p) m) :
    ∃ n s', SweptTo B p K s m [] items rest (settledResult stored s.register) n s' ∧
      s.routines.vacated id < s'.routines.vacated id ∧
      Turned strict [id] [] rest (fun _ x => x) s s' := by
  have hid : s.routines.find? id = some ⟨.settled, some (.settled stored), none, []⟩ :=
    haw.stands _ (List.mem_cons_self ..)
  have hstack : s.stack = .routine id :: (items.map SweepItem.entry ++ rest) := haw.stack
  have hpick := pick_of_top hstack hid rfl
  have hfed := h.pick (B := B) hpick
  have hsettled := hfed.settles (B := B)
  have hr := ((Reaches.refl (B := B) (p := p) m).unseen h.event?_head).unseen (by
    simp [event?, hfed.focus, hfed.control, Script.isUser])
  obtain ⟨n₁, t, hr₁, hat₁, hspared⟩ := hsettled.dropped
    (hdrops _ _ hr rfl (hsettled.atLoop (by simp [Frame.ofLoop])))
  have hr₁ := hr.quietly hr₁
  have hr₂ := hr₁.unseen (by simp [event?, hat₁.focus, hat₁.control, Script.isUser])
  obtain ⟨unhandled, unclaimed, reports, rfl⟩ := hspared
  have hfinish : Finishes p K id (settledResult stored s.register) _ n₁ := Or.inl ⟨_, hat₁⟩
  have hwaits := haw.picked (t := { ({ s with
      stack := items.map SweepItem.entry ++ rest, current := some id }.modify id
        fun r => { r with script := none }) with
    register := Outcome.unit, unhandled, unclaimed, reports }) rfl rfl
  have hnodup := haw.nodup
  rw [List.flatMap_cons, SweepItem.ids, List.singleton_append] at hnodup
  obtain ⟨n, s', hswept, hless, hturned⟩ := hfinish.swept (hreach.later hr₁.later) hwaits
    (Nat.le_trans (Nat.le_of_eq (Roster.size_slots_modify _ _ _)) hroom)
    (r := ⟨.settled, none, none, []⟩) (b := .nil)
    (by
      show (s.routines.modify id _).find? id = _
      rw [Roster.find?_modify, if_pos rfl, hid]
      rfl)
    rfl trivial hnodup (fun _ hnone => by cases hnone)
    ((hdrops.later hr₂).weaken fun evs hevs => hevs)
    (fun hstrict => ((hstill hstrict).later hr₂).weaken fun evs hevs => hevs)
  refine ⟨n, s', ⟨hr₂.quietly hswept.reaches, hswept.head, hswept.awaits, hswept.register, ?_⟩, ?_,
    hturned.of_modify (fun a ha => ?_)⟩
  · exact hswept.slots.trans (Roster.size_slots_modify _ _ _)
  · refine Nat.lt_of_le_of_lt (Nat.le_of_eq ?_) (hless id (List.mem_cons_self ..))
    exact (Roster.vacated_modify _ _ _ _).symm
  · show (s.routines.modify id _).find? a = _
    rw [Roster.find?_modify, if_neg]
    rintro rfl
    exact ha (.of_mem (List.mem_cons_self ..))

/-! ### The whole sweep -/

/-- What the work list ends in if no further exit fails: a failure that is on
    its way down, or else the result at the bottom. -/
def endsIn (register o : Outcome Value) : Outcome Value :=
  match register with
  | .success _ => o
  | .failure e => .failure e

/-- A result kept back above the bottom makes no difference: it is a success
    that nobody receives, or a failure is on its way down. -/
def Harmless (register : Outcome Value) : SweepItem C → Prop
  | .exit _ _ _ => True
  | .settled _ stored => register.isSuccess = true → stored.isSuccess = true

theorem endsIn_exitResult (register o final : Outcome Value) (os : List (Outcome Value)) :
    lastFailure (endsIn (exitResult register o) final) os =
      lastFailure (endsIn register final) (o :: os) := by
  cases o with
  | failure e => cases register <;> rfl
  | success v => cases register <;> rfl

theorem endsIn_settledResult {register stored final : Outcome Value}
    (h : register.isSuccess = true → stored.isSuccess = true) :
    endsIn (settledResult stored register) final = endsIn register final := by
  cases register with
  | failure e => rfl
  | success v =>
    cases stored with
    | success w => rfl
    | failure e => exact absurd (h rfl) nofun

theorem isSuccess_of_exitResult {register o : Outcome Value}
    (h : (exitResult register o).isSuccess = true) : register.isSuccess = true := by
  cases register with
  | success v => rfl
  | failure e => cases o <;> exact absurd h nofun

theorem isSuccess_of_settledResult {register stored : Outcome Value}
    (h : (settledResult stored register).isSuccess = true) : register.isSuccess = true := by
  cases register with
  | success v => rfl
  | failure e => exact absurd h nofun

theorem exits_itemsOf (b : Brood C) (id : RoutineId) (o : Outcome Value) :
    (itemsOf b id o).flatMap SweepItem.exits = b.exits := by
  cases b with
  | nil => rfl
  | cons c cs children later =>
    rw [itemsOf, List.flatMap_append, SweepItem.exits_ofBrood]
    · exact List.append_nil _
    · exact nofun

theorem turns_itemsOf (b : Brood C) (id : RoutineId) (o : Outcome Value) :
    ((itemsOf b id o).map SweepItem.turns).sum ≤ 2 * b.size + 1 := by
  cases b with
  | nil => exact Nat.zero_le _
  | cons c cs children later =>
    rw [itemsOf, List.map_append, List.sum_append, SweepItem.turns_ofBrood]
    · exact Nat.le_refl _
    · exact nofun

/-- A descendant is one of the siblings, or an item takes it over. -/
theorem mem_itemsOf {b : Brood C} {a : RoutineId} (h : a ∈ b.ids) (id : RoutineId)
    (o : Outcome Value) : a ∈ b.roots ∨ a ∈ (itemsOf b id o).flatMap SweepItem.ids := by
  have hbrood : a ∈ b.roots ∨ a ∈ (SweepItem.ofBrood b).flatMap SweepItem.ids := by
    induction b with
    | nil => cases h
    | cons c cs children later _ ih =>
      rcases List.mem_cons.mp h with rfl | h
      · exact Or.inl (List.mem_cons_self ..)
      · rw [SweepItem.ofBrood, List.flatMap_append, List.mem_append]
        rcases List.mem_append.mp h with h | h
        · refine Or.inr (Or.inr ?_)
          simp [SweepItem.ids, h]
        · rcases ih h with h | h
          · exact Or.inl (List.mem_cons_of_mem _ h)
          · exact Or.inr (Or.inl h)
  rcases hbrood with h | h
  · exact Or.inl h
  · cases b with
    | nil => cases h
    | cons c cs children later =>
      rw [itemsOf, List.flatMap_append]
      · exact Or.inr (List.mem_append_left _ h)
      · exact nofun

theorem harmless_ofBrood (register : Outcome Value) (b : Brood C) :
    ∀ item ∈ SweepItem.ofBrood b, Harmless register item := by
  induction b with
  | nil => exact nofun
  | cons c cs children later _ ih =>
    intro item hitem
    rcases List.mem_append.mp hitem with hitem | hitem
    · exact ih item hitem
    · rw [List.mem_singleton] at hitem
      exact hitem ▸ trivial

theorem harmless_itemsOf {b : Brood C} {id : RoutineId} {o : Outcome Value} :
    ∀ item ∈ itemsOf b id o, Harmless o item := by
  cases b with
  | nil => exact nofun
  | cons c cs children later =>
    intro item hitem
    rw [itemsOf] at hitem
    · rcases List.mem_append.mp hitem with hitem | hitem
      · exact harmless_ofBrood o _ item hitem
      · rw [List.mem_singleton] at hitem
        subst hitem
        exact fun hsuccess => hsuccess
    · exact nofun

/-- One part of a sweep after another. -/
theorem SweptTo.trans {evs evs' : List (PassEvent C)} {items' : List (SweepItem C)}
    {o o' : Outcome Value} {n n' : Machine C R} {s' s'' : Scheduler C}
    (h : SweptTo B p K s m evs items rest o n s')
    (h' : SweptTo B p K s' n evs' items' rest o' n' s'') :
    SweptTo B p K s m (evs ++ evs') items' rest o' n' s'' where
  reaches := h.reaches.trans h'.reaches
  head := h'.head
  awaits := h'.awaits
  register := h'.register
  slots := h'.slots.trans h.slots

/-- Once a slot is vacated in a sweep, it stays so. -/
theorem SweptTo.vacated {evs : List (PassEvent C)} {items' : List (SweepItem C)}
    {o : Outcome Value} {n : Machine C R} {s' : Scheduler C}
    (h : SweptTo B p K s m evs items' rest o n s') (hs : m.scheduler? p = some s)
    (a : RoutineId) : s.routines.vacated a ≤ s'.routines.vacated a :=
  (h.reaches.later.grows hs h.head.scheduler).vacated a

/-- The items are taken one after the other, until the result at the bottom
    has gone on. -/
theorem SweptTo.emptied {good : Outcome Value → Prop} {inner : List (SweepItem C)}
    {id : RoutineId} {o : Outcome Value} {N : Nat} (h : AtHead p K s m) (hreach : Reachable B m)
    (haw : Awaits s (inner ++ [.settled id o]) rest)
    (hharmless : ∀ item ∈ inner, Harmless s.register item)
    (hroom : s.routines.slots.size ≤ 2 ^ 32) (hN : (inner.flatMap SweepItem.exits).length = N)
    (hexits : During B p K (fun evs => evs.length < 2 * N ∧ ExitsOnly evs)
      (fun n => ∀ c ∈ inner.flatMap SweepItem.exits, ExitReturns B p good c.2 n) m)
    (hdrops : During B p K (fun evs => evs.length ≤ 2 * N ∧ ExitsOnly evs) (DropsReturn B p) m)
    {strict : Prop}
    (hstill : strict →
      During B p K (fun evs => evs.length ≤ 2 * N ∧ ExitsOnly evs) (NoneUnclaimed p) m) :
    ∃ (calls : List (ExitCall C)) (n : Machine C R) (s' : Scheduler C),
      calls.map (fun c => (c.id, c.script)) = inner.flatMap SweepItem.exits ∧
      (∀ c ∈ calls, good c.outcome) ∧
      SweptTo B p K s m (calls.flatMap ExitCall.events) [] rest
        (lastFailure (endsIn s.register o) (calls.map ExitCall.outcome)) n s' ∧
      (∀ a ∈ (inner ++ [SweepItem.settled id o]).flatMap SweepItem.ids,
        s.routines.vacated a < s'.routines.vacated a) ∧
      Turned strict ((inner ++ [SweepItem.settled id o]).flatMap SweepItem.ids) [] rest
        (fun _ x => x) s s' := by
  induction hk : (inner.map SweepItem.turns).sum using Nat.strongRecOn
    generalizing m s inner N with
  | _ k ih =>
    have hnow : ∀ evs : List (PassEvent C), evs = [] → evs.length ≤ 2 * N ∧ ExitsOnly evs := by
      rintro _ rfl
      exact ⟨Nat.zero_le _, nofun⟩
    cases inner with
    | nil =>
      obtain ⟨n, s', hswept, hless, hturned⟩ := SweptTo.settled h hreach haw hroom
        (hdrops.weaken hnow) fun hstrict => (hstill hstrict).weaken hnow
      refine ⟨[], n, s', rfl, nofun, hswept, ?_, hturned⟩
      intro a ha
      have heq : a = id := by simpa [SweepItem.ids] using ha
      exact heq ▸ hless
    | cons item tail =>
      rw [List.map_cons, List.sum_cons] at hk
      rw [List.flatMap_cons] at hN
      rw [List.cons_append] at haw
      cases item with
      | settled w stored =>
        obtain ⟨n₁, s₁, hswept, hless, hturned⟩ := SweptTo.settled h hreach haw hroom
          (hdrops.weaken hnow) fun hstrict => (hstill hstrict).weaken hnow
        have hr := hswept.reaches
        obtain ⟨calls, n, s', hcalls, hgood, hswept', hless', hturned'⟩ :=
          ih _ (by rw [← hk]; exact Nat.lt_add_of_pos_left Nat.one_pos) hswept.head
            (hreach.later hr.later) hswept.awaits
            (by
              intro item hitem
              have hbefore := hharmless item (List.mem_cons_of_mem _ hitem)
              cases item with
              | exit => trivial
              | settled =>
                intro hs
                exact hbefore (isSuccess_of_settledResult (hswept.register ▸ hs)))
            (Nat.le_trans (Nat.le_of_eq hswept.slots) hroom) hN (hexits.later hr)
            (hdrops.later hr) (fun hstrict => (hstill hstrict).later hr) rfl
        have hkept : s.register.isSuccess = true → stored.isSuccess = true :=
          hharmless _ (List.mem_cons_self ..)
        rw [hswept.register, endsIn_settledResult hkept] at hswept'
        refine ⟨calls, n, s', hcalls, hgood, hswept.trans hswept', ?_, (hturned.framed _).trans hturned'
          fun a ha => inSlots_append.mpr (Or.inr ha)⟩
        intro a ha
        rw [List.cons_append, List.flatMap_cons, SweepItem.ids, List.singleton_append] at ha
        rcases List.mem_cons.mp ha with rfl | ha
        · exact Nat.lt_of_lt_of_le hless (hswept'.vacated hswept.head.scheduler _)
        · exact Nat.lt_of_le_of_lt (hswept.vacated h.scheduler a) (hless' a ha)
      | exit w script children =>
        obtain ⟨M, rfl⟩ : ∃ M, N = M + 1 := by
          refine ⟨N - 1, ?_⟩
          rw [SweepItem.exits, List.cons_append, List.length_cons] at hN
          omega
        obtain ⟨out, n₁, s₁, hout, hswept, hless, hturned⟩ := SweptTo.exit h hreach haw hroom
          ((hexits.weaken (by rintro _ rfl; exact ⟨Nat.mul_pos Nat.two_pos (Nat.succ_pos M), nofun⟩)).imp
            fun n hn => hn (w, script) (List.mem_cons_self ..))
          (hdrops.weaken fun evs hevs => ⟨by omega, hevs.2⟩)
          (fun hstrict => (hstill hstrict).weaken fun evs hevs => ⟨by omega, hevs.2⟩)
        have hr := hswept.reaches
        have hwaits := hswept.awaits
        rw [← List.append_assoc] at hwaits
        have hlater : ∀ {evs' : List (PassEvent C)},
            ([PassEvent.exiting w script, .exited w out] ++ evs').length = evs'.length + 2 :=
          fun {evs'} => Nat.add_comm 2 evs'.length ▸ List.length_append
        have honly : ∀ {evs' : List (PassEvent C)}, ExitsOnly evs' →
            ExitsOnly ([PassEvent.exiting w script, .exited w out] ++ evs') := by
          intro evs' hevs
          exact List.forall_mem_cons.mpr ⟨rfl, List.forall_mem_cons.mpr ⟨rfl, hevs⟩⟩
        have hsub : ∀ c ∈ (itemsOf children w (exitResult s.register out) ++ tail).flatMap
            SweepItem.exits, c ∈ (SweepItem.exit w script children :: tail).flatMap SweepItem.exits := by
          intro c hc
          rw [List.flatMap_append, exits_itemsOf] at hc
          rw [List.flatMap_cons, SweepItem.exits]
          exact List.mem_cons_of_mem _ hc
        have hturns := turns_itemsOf children w (exitResult s.register out)
        rw [SweepItem.exits, List.cons_append, List.length_cons] at hN
        obtain ⟨calls, n, s', hcalls, hgood, hswept', hless', hturned'⟩ :=
          ih _ (by
              rw [← hk, SweepItem.turns, List.map_append, List.sum_append]
              omega) hswept.head (hreach.later hr.later) hwaits
            (by
              intro item hitem
              rw [hswept.register]
              rcases List.mem_append.mp hitem with hitem | hitem
              · exact harmless_itemsOf item hitem
              · have hbefore := hharmless item (List.mem_cons_of_mem _ hitem)
                cases item with
                | exit => trivial
                | settled => exact fun hs => hbefore (isSuccess_of_exitResult hs))
            (Nat.le_trans (Nat.le_of_eq hswept.slots) hroom)
            (N := M)
            (by
              rw [List.flatMap_append, exits_itemsOf]
              exact Nat.succ.inj hN)
            (((hexits.later hr).weaken fun evs hevs => ⟨by rw [hlater]; omega, honly hevs.2⟩).imp
              fun n hn c hc => hn c (hsub c hc))
            ((hdrops.later hr).weaken fun evs hevs => ⟨by rw [hlater]; omega, honly hevs.2⟩)
            (fun hstrict => ((hstill hstrict).later hr).weaken fun evs hevs =>
              ⟨by rw [hlater]; omega, honly hevs.2⟩) rfl
        rw [hswept.register, endsIn_exitResult] at hswept'
        rw [List.append_assoc, List.flatMap_append] at hturned'
        refine ⟨⟨w, script, out⟩ :: calls, n, s', ?_, List.forall_mem_cons.mpr ⟨hout, hgood⟩,
          hswept.trans hswept', ?_,
          (hturned.framed _).trans hturned' ?_⟩
        · rw [List.map_cons, hcalls, List.flatMap_append, exits_itemsOf]
          rfl
        · intro a ha
          rw [List.cons_append, List.flatMap_cons, SweepItem.ids, List.cons_append] at ha
          have hmono := hswept'.vacated hswept.head.scheduler a
          have hmono' := hswept.vacated h.scheduler a
          rw [List.append_assoc, List.flatMap_append] at hless'
          rcases List.mem_cons.mp ha with rfl | ha
          · exact Nat.lt_of_lt_of_le (hless _ (List.mem_cons_self ..)) hmono
          · rcases List.mem_append.mp ha with ha | ha
            · rcases mem_itemsOf ha w (exitResult s.register out) with ha | ha
              · exact Nat.lt_of_lt_of_le (hless a (List.mem_cons_of_mem _ ha)) hmono
              · exact Nat.lt_of_le_of_lt hmono' (hless' a (List.mem_append_left _ ha))
            · exact Nat.lt_of_le_of_lt hmono' (hless' a (List.mem_append_right _ ha))
        · intro a ha
          rw [inSlots_append, inSlots_itemsOf] at ha
          exact inSlots_append.mpr (ha.imp_left And.right)

/-- The sweep after a routine `id` has finished with `o` makes all its
    descendants `T` exit, and nothing is left of them. -/
theorem Finishes.emptied {good : Outcome Value → Prop} {id : RoutineId} {o : Outcome Value} {origin : Origin}
    {parent : Option RoutineId} {T : Brood C} (h : Finishes p K id o s m) (hreach : Reachable B m)
    (hroom : s.routines.slots.size ≤ 2 ^ 32)
    (hid : s.routines.find? id = some ⟨origin, none, parent, T.roots⟩)
    (hT : T.Stands s.routines id)
    (hexits : During B p K (fun evs => evs.length < 2 * T.size ∧ ExitsOnly evs)
      (fun n => ∀ c ∈ T.exits, ExitReturns B p good c.2 n) (m.step B))
    (hdrops : During B p K (fun evs => evs.length ≤ 2 * T.size ∧ ExitsOnly evs) (DropsReturn B p)
      (m.step B))
    {strict : Prop}
    (hstill : strict → During B p K (fun evs => evs.length ≤ 2 * T.size ∧ ExitsOnly evs)
      (NoneUnclaimed p) (m.step B)) :
    ∃ (calls : List (ExitCall C)) (n : Machine C R) (s' : Scheduler C),
      calls.map (fun c => (c.id, c.script)) = T.exits ∧ (∀ c ∈ calls, good c.outcome) ∧
      SweptTo B p K s (m.step B) (calls.flatMap ExitCall.events) [] s.stack
        (lastFailure o (calls.map ExitCall.outcome)) n s' ∧
      (∀ a ∈ T.ids, s.routines.vacated a < s'.routines.vacated a) ∧
      Turned strict (id :: T.ids) [] s.stack (struck id parent) s s' := by
  have hlinked := hreach.linked h.scheduler hroom
  obtain ⟨hnodup, hparent⟩ := hT.tree hlinked hid rfl rfl
  have haw : Awaits s [] s.stack := ⟨rfl, List.forall_mem_nil _, List.nodup_nil⟩
  obtain ⟨n₁, s₁, hswept, hless, hturned⟩ := h.swept hreach haw hroom hid rfl hT
    (by simpa using hnodup) (by simpa using hparent)
    (hdrops.weaken (by rintro _ rfl; exact ⟨Nat.zero_le _, nofun⟩))
    (fun hstrict => (hstill hstrict).weaken (by rintro _ rfl; exact ⟨Nat.zero_le _, nofun⟩))
  have hlater₁ : Later B m n₁ := Later.trans (.step .refl) hswept.reaches.later
  -- what is left is a work list, which the pass empties
  cases T with
  | nil => exact ⟨[], n₁, s₁, rfl, nofun, hswept, List.forall_mem_nil _, hturned⟩
  | cons c cs children later =>
    have hitems : itemsOf (Brood.cons c cs children later) id o ++ [] =
        SweepItem.ofBrood (Brood.cons c cs children later) ++ [.settled id.next o] :=
      List.append_nil _
    rw [hitems] at hswept
    obtain ⟨calls, n, s', hcalls, hgood, hswept', hless', hturned'⟩ := SweptTo.emptied hswept.head
      (hreach.later hlater₁) hswept.awaits (harmless_ofBrood _ _)
      (Nat.le_trans (Nat.le_of_eq hswept.slots) hroom)
      (by rw [SweepItem.exits_ofBrood, Brood.length_exits])
      ((hexits.later hswept.reaches).imp fun n hn c hc =>
        hn c (by rwa [SweepItem.exits_ofBrood] at hc))
      (hdrops.later hswept.reaches)
      (fun hstrict => (hstill hstrict).later hswept.reaches)
    rw [SweepItem.exits_ofBrood] at hcalls
    rw [hswept.register, show endsIn o o = o by cases o <;> rfl] at hswept'
    refine ⟨calls, n, s', hcalls, hgood, hswept.trans hswept', ?_, hturned.trans hturned'
      fun a ha => ((inSlots_itemsOf _ _ _ _).mp ha).2⟩
    intro a ha
    rcases mem_itemsOf ha id o with ha | ha
    · exact Nat.lt_of_lt_of_le (hless a (List.mem_cons_of_mem _ ha))
        (hswept'.vacated hswept.head.scheduler a)
    · have hmono := (hlater₁.grows h.scheduler hswept.head.scheduler).vacated a
      refine Nat.lt_of_le_of_lt hmono (hless' a ?_)
      rw [← hitems, List.append_nil]
      exact ha

/-- A machine in which a routine finishes. -/
structure Finish (C R : Type) where
  frames : List (Frame C R)
  id : RoutineId
  outcome : Outcome Value
  scheduler : Scheduler C
  routine : Routine C
  descendants : Brood C

/-- The routine that finishes, if its script is done, and what stands below
    it. -/
def finish? (p : Nat) (m : Machine C R) : Option (Finish C R) :=
  match m.control, m.focus, m.scheduler? p with
  | .stepping q id :: .pass q' :: K, .release [] (.give (.stepped (.done o) _)), some s =>
    if q = p ∧ q' = p then
      (s.routines.find? id).bind fun r =>
        if r.script.isNone ∧ s.routines.slots.size ≤ 2 ^ 32 then
          (Brood.gather s.routines s.routines.size r.children).map fun T => ⟨K, id, o, s, r, T⟩
        else none
    else none
  | _, _, _ => none

theorem of_finish? {x : Finish C R} (h : m.finish? p = some x) (hreach : Reachable B m) :
    Finishes p x.frames x.id x.outcome x.scheduler m ∧
      x.scheduler.routines.slots.size ≤ 2 ^ 32 ∧
      x.scheduler.routines.find? x.id =
        some ⟨x.routine.origin, none, x.routine.parent, x.descendants.roots⟩ ∧
      x.descendants.Stands x.scheduler.routines x.id := by
  unfold finish? at h
  split at h
  · next q id q' K o script s hcontrol hfocus hsched =>
    split at h
    · next hq =>
      obtain ⟨rfl, rfl⟩ := hq
      obtain ⟨r, hr, h⟩ := Option.bind_eq_some_iff.mp h
      split at h
      · next hout =>
        obtain ⟨hnone, hroom⟩ := hout
        obtain ⟨T, hT, rfl⟩ := Option.map_eq_some_iff.mp h
        have hl := hreach.linked hsched hroom
        obtain ⟨hroots, hstands⟩ := Brood.stands_of_gather hl hT (q := id) (by
          intro c hmem y hy
          obtain ⟨y', hy', hparent⟩ := hl.child hr hmem
          rw [hy] at hy'
          cases hy'
          exact hparent)
        refine ⟨Or.inl ⟨script, hcontrol, hfocus, hsched⟩, hroom, ?_, hstands⟩
        show s.routines.find? id = some ⟨r.origin, none, r.parent, T.roots⟩
        rw [hr, hroots, ← Option.isNone_iff_eq_none.mp hnone]
      · cases h
    · cases h
  · cases h

end Machine

end Strand
