import Rollout.Names
/-!
Tables from names to values.  A table lists its bindings in ascending order of their names, each name once; the order is
a field of the type, so every table prints in one way and two tables with the same bindings are equal
(`Table.ext_get?`).  What an operation does is said through `get?`.

There are three ways to make a table: from a list of bindings, where the last one of a name counts (`ofList`), from
names and a function (`ofNames`), and from another table, by binding a name, by applying a function to a value, by
keeping some of the bindings, or by mapping the values.  To modify or to map leaves the names as they are, so their
order need not be shown again.

The keys of a table are names in ascending order, and a name is bound if it is one of them (`get?_isSome_iff`).  A table
can be taken apart into its entries and put together of any permutation of them.
-/
namespace Rollout

structure Table (α : Type) where
  entries : List (String × α)
  ascending : Ascending (entries.map Prod.fst)
deriving DecidableEq, Repr

namespace Table

variable {α β : Type}

def empty : Table α := ⟨[], by simp⟩

instance : Inhabited (Table α) := ⟨empty⟩

def keys (t : Table α) : List String := t.entries.map Prod.fst

def values (t : Table α) : List α := t.entries.map Prod.snd

def size (t : Table α) : Nat := t.entries.length

def get? (t : Table α) (name : String) : Option α := t.entries.lookup name

def getD (t : Table α) (name : String) (default : α) : α := (t.get? name).getD default

def contains (t : Table α) (name : String) : Bool := (t.get? name).isSome

theorem lookup_cons_ite (name : String) (head : String × α) (tail : List (String × α)) :
    (head :: tail).lookup name = if name = head.1 then some head.2 else tail.lookup name := by
  obtain ⟨n, v⟩ := head
  rw [List.lookup_cons]
  by_cases h : name = n
  · simp [h]
  · simp [h, beq_eq_false_iff_ne.2 h]

/-! ## Binding a name

A new binding goes to its place in the order and replaces an old one of the same name. -/

def insertEntry (name : String) (value : α) : List (String × α) → List (String × α)
  | [] => [(name, value)]
  | head :: tail =>
    if name < head.1 then (name, value) :: head :: tail
    else if name = head.1 then (name, value) :: tail
    else head :: insertEntry name value tail

theorem map_fst_insertEntry (name : String) (value : α) (l : List (String × α)) :
    (insertEntry name value l).map Prod.fst = Names.insert name (l.map Prod.fst) := by
  induction l with
  | nil => rfl
  | cons head tail ih =>
    simp only [insertEntry, List.map_cons, Names.insert]
    split
    · rfl
    · split
      · next h => simp [h]
      · simp [ih]

theorem lookup_insertEntry_self (name : String) (value : α) (l : List (String × α)) :
    (insertEntry name value l).lookup name = some value := by
  induction l with
  | nil => simp [insertEntry]
  | cons head tail ih =>
    unfold insertEntry
    split
    · simp
    · split
      · simp
      · next hne => simp [lookup_cons_ite, hne, ih]

theorem lookup_insertEntry_of_ne {name other : String} (value : α) (l : List (String × α)) (h : other ≠ name) :
    (insertEntry name value l).lookup other = l.lookup other := by
  induction l with
  | nil => simp [insertEntry, lookup_cons_ite, h]
  | cons head tail ih =>
    unfold insertEntry
    split
    · simp [lookup_cons_ite other, h]
    · split
      · next heq => simp [lookup_cons_ite other, ← heq, h]
      · simp [lookup_cons_ite other, ih]

def insert (t : Table α) (name : String) (value : α) : Table α where
  entries := insertEntry name value t.entries
  ascending := by rw [map_fst_insertEntry]; exact Names.ascending_insert t.ascending

@[simp] theorem get?_insert_self (t : Table α) (name : String) (value : α) :
    (t.insert name value).get? name = some value := lookup_insertEntry_self name value t.entries

theorem get?_insert_of_ne (t : Table α) {name other : String} (value : α) (h : other ≠ name) :
    (t.insert name value).get? other = t.get? other := lookup_insertEntry_of_ne value t.entries h

theorem get?_insert (t : Table α) (name other : String) (value : α) :
    (t.insert name value).get? other = if other = name then some value else t.get? other := by
  split
  · next h => simp [h]
  · next h => exact get?_insert_of_ne t value h

/-! ## Tables from lists, and maps over the values -/

/-- The bindings of a list, where the last one of a name counts. -/
def ofList (l : List (String × α)) : Table α := l.foldl (fun t e => t.insert e.1 e.2) empty

def map (t : Table α) (f : String → α → β) : Table β where
  entries := t.entries.map fun e => (e.1, f e.1 e.2)
  ascending := by simpa [Function.comp_def] using t.ascending

def filter (t : Table α) (keep : String → α → Bool) : Table α where
  entries := t.entries.filter fun e => keep e.1 e.2
  ascending := t.ascending.sublist (List.filter_sublist.map Prod.fst)

def ofNames (names : List String) (f : String → α) : Table α where
  entries := (Names.ofList names).map fun n => (n, f n)
  ascending := by simpa [Function.comp_def] using Names.ascending_ofList names

def modify (t : Table α) (name : String) (f : α → α) : Table α :=
  t.map fun n value => if n = name then f value else value

theorem lookup_map_entries (f : String → α → β) (l : List (String × α)) (name : String) :
    (l.map fun e => (e.1, f e.1 e.2)).lookup name = (l.lookup name).map (f name) := by
  induction l with
  | nil => rfl
  | cons head tail ih =>
    simp only [List.map_cons, lookup_cons_ite]
    by_cases h : name = head.1
    · simp [h]
    · simp [h, ih]

@[simp] theorem get?_map (t : Table α) (f : String → α → β) (name : String) :
    (t.map f).get? name = (t.get? name).map (f name) := lookup_map_entries f t.entries name

@[simp] theorem keys_map (t : Table α) (f : String → α → β) : (t.map f).keys = t.keys := by
  simp [map, keys, Function.comp_def]

@[simp] theorem keys_modify (t : Table α) (name : String) (f : α → α) : (t.modify name f).keys = t.keys :=
  keys_map t _

theorem get?_modify (t : Table α) (name other : String) (f : α → α) :
    (t.modify name f).get? other = if other = name then (t.get? other).map f else t.get? other := by
  unfold modify
  rw [get?_map]
  split
  · next h => simp [h]
  · simp

@[simp] theorem keys_empty : (empty : Table α).keys = [] := rfl

@[simp] theorem get?_empty (name : String) : (empty : Table α).get? name = none := rfl

theorem mem_keys_insert (t : Table α) (name other : String) (value : α) :
    other ∈ (t.insert name value).keys ↔ other = name ∨ other ∈ t.keys := by
  unfold keys insert
  rw [map_fst_insertEntry, Names.mem_insert]

theorem ascending_keys (t : Table α) : Ascending t.keys := t.ascending

theorem nodup_keys (t : Table α) : t.keys.Nodup := t.ascending.imp fun {_ _} h => Names.ne_of_lt h

@[simp] theorem keys_ofNames (names : List String) (f : String → α) :
    (ofNames names f).keys = Names.ofList names := by
  simp [ofNames, keys, Function.comp_def]

/-! ## Bound names -/

theorem lookup_isSome_iff (l : List (String × α)) (name : String) :
    (l.lookup name).isSome ↔ name ∈ l.map Prod.fst := by
  induction l with
  | nil => simp
  | cons head tail ih =>
    simp only [lookup_cons_ite, List.map_cons, List.mem_cons]
    by_cases h : name = head.1
    · simp [h]
    · simp [h, ih]

theorem get?_isSome_iff (t : Table α) (name : String) : (t.get? name).isSome ↔ name ∈ t.keys :=
  lookup_isSome_iff t.entries name

@[simp] theorem contains_iff (t : Table α) (name : String) : t.contains name = true ↔ name ∈ t.keys :=
  get?_isSome_iff t name

theorem get?_eq_none_iff (t : Table α) (name : String) : t.get? name = none ↔ name ∉ t.keys := by
  rw [← get?_isSome_iff, Option.isSome_iff_ne_none]
  simp

theorem lookup_eq_some_iff {l : List (String × α)} (h : (l.map Prod.fst).Nodup) {name : String} {value : α} :
    l.lookup name = some value ↔ (name, value) ∈ l := by
  induction l with
  | nil => simp
  | cons head tail ih =>
    obtain ⟨n, v⟩ := head
    simp only [List.map_cons] at h
    obtain ⟨hn, htail⟩ := List.nodup_cons.1 h
    simp only [lookup_cons_ite, List.mem_cons, Prod.mk.injEq]
    by_cases hname : name = n
    · subst hname
      simp only [if_true, Option.some.injEq, true_and]
      constructor
      · intro hv
        exact Or.inl hv.symm
      · rintro (hv | hv)
        · exact hv.symm
        · exact absurd (List.mem_map.2 ⟨_, hv, rfl⟩) hn
    · simp [hname, ih htail]

theorem get?_eq_some_iff (t : Table α) {name : String} {value : α} :
    t.get? name = some value ↔ (name, value) ∈ t.entries := lookup_eq_some_iff t.nodup_keys

theorem get?_filter (t : Table α) (keep : String → α → Bool) (name : String) :
    (t.filter keep).get? name = (t.get? name).filter (keep name) := by
  refine Option.ext fun value => ?_
  rw [get?_eq_some_iff, Option.filter_eq_some_iff, get?_eq_some_iff]
  exact List.mem_filter

/-! ## What a list of bindings gives -/

theorem get?_foldl_insert {name : String} {value : α} : ∀ (l : List (String × α)) (t : Table α),
    (l.foldl (fun t e => t.insert e.1 e.2) t).get? name = some value ↔
      (∃ earlier later, l = earlier ++ (name, value) :: later ∧ ∀ e ∈ later, e.1 ≠ name) ∨
        (∀ e ∈ l, e.1 ≠ name) ∧ t.get? name = some value
  | [], t => by simp
  | (n, v) :: l, t => by
    rw [List.foldl_cons, get?_foldl_insert l]
    constructor
    · rintro (⟨earlier, later, rfl, hlater⟩ | ⟨hl, hget⟩)
      · exact Or.inl ⟨(n, v) :: earlier, later, rfl, hlater⟩
      · rw [get?_insert] at hget
        by_cases h : name = n
        · rw [if_pos h, Option.some.injEq] at hget
          subst h hget
          exact Or.inl ⟨[], l, rfl, hl⟩
        · rw [if_neg h] at hget
          refine Or.inr ⟨fun e he => ?_, hget⟩
          rcases List.mem_cons.1 he with rfl | he
          · exact Ne.symm h
          · exact hl e he
    · rintro (⟨earlier, later, heq, hlater⟩ | ⟨hl, hget⟩)
      · cases earlier with
        | nil =>
          simp only [List.nil_append, List.cons.injEq, Prod.mk.injEq] at heq
          obtain ⟨⟨rfl, rfl⟩, rfl⟩ := heq
          exact Or.inr ⟨hlater, get?_insert_self t n v⟩
        | cons e earlier =>
          simp only [List.cons_append, List.cons.injEq] at heq
          exact Or.inl ⟨earlier, later, heq.2, hlater⟩
      · refine Or.inr ⟨fun e he => hl e (List.mem_cons_of_mem _ he), ?_⟩
        rw [get?_insert_of_ne t v (Ne.symm (hl (n, v) List.mem_cons_self)), hget]

/-- **The last binding of a name counts.** -/
theorem get?_ofList_eq_some_iff {l : List (String × α)} {name : String} {value : α} :
    (ofList l).get? name = some value ↔
      ∃ earlier later, l = earlier ++ (name, value) :: later ∧ ∀ e ∈ later, e.1 ≠ name := by
  unfold ofList
  rw [get?_foldl_insert]
  simp

theorem mem_keys_foldl_insert {name : String} : ∀ (l : List (String × α)) (t : Table α),
    name ∈ (l.foldl (fun t e => t.insert e.1 e.2) t).keys ↔ name ∈ l.map Prod.fst ∨ name ∈ t.keys
  | [], t => by simp
  | (n, v) :: l, t => by
    rw [List.foldl_cons, mem_keys_foldl_insert l, mem_keys_insert, List.map_cons, List.mem_cons]
    constructor
    · rintro (h | h | h) <;> simp [h]
    · rintro ((h | h) | h) <;> simp [h]

theorem mem_keys_ofList {l : List (String × α)} {name : String} : name ∈ (ofList l).keys ↔ name ∈ l.map Prod.fst := by
  unfold ofList
  rw [mem_keys_foldl_insert]
  simp

theorem lookup_map_pair (f : String → α) (name : String) : ∀ l : List String,
    (l.map fun n => (n, f n)).lookup name = if name ∈ l then some (f name) else none
  | [] => rfl
  | n :: l => by
    rw [List.map_cons, lookup_cons_ite, lookup_map_pair f name l]
    by_cases h : name = n
    · subst h
      simp
    · simp [h]

theorem get?_ofNames (names : List String) (f : String → α) (name : String) :
    (ofNames names f).get? name = if name ∈ names then some (f name) else none := by
  show ((Names.ofList names).map fun n => (n, f n)).lookup name = _
  simp [lookup_map_pair]

/-- **Bindings decide a table.** -/
theorem ext_get? {s t : Table α} (h : ∀ name, s.get? name = t.get? name) : s = t := by
  have hkeys : s.keys = t.keys := by
    refine ascending_ext s.ascending t.ascending fun name => ?_
    rw [← get?_isSome_iff, ← get?_isSome_iff, h]
  suffices hent : s.entries = t.entries by
    cases s
    cases t
    cases hent
    rfl
  have aux : ∀ (l₁ l₂ : List (String × α)), Ascending (l₁.map Prod.fst) → l₁.map Prod.fst = l₂.map Prod.fst →
      (∀ name, l₁.lookup name = l₂.lookup name) → l₁ = l₂ := by
    intro l₁
    induction l₁ with
    | nil =>
      intro l₂ _ hk _
      simpa using hk.symm
    | cons a l₁ ih =>
      intro l₂ ha hk hl
      cases l₂ with
      | nil => simp at hk
      | cons b l₂ =>
        obtain ⟨n, v⟩ := a
        obtain ⟨m, w⟩ := b
        simp only [List.map_cons, List.cons.injEq] at hk ha
        obtain ⟨rfl, hk⟩ := hk
        obtain ⟨hn, ha⟩ := List.pairwise_cons.1 ha
        have hv : v = w := by simpa [lookup_cons_ite] using hl n
        subst hv
        refine congrArg _ (ih l₂ ha hk fun name => ?_)
        by_cases hname : name = n
        · subst hname
          have h₁ : name ∉ l₁.map Prod.fst := fun hm => String.lt_irrefl name (hn name hm)
          have h₂ : name ∉ l₂.map Prod.fst := hk ▸ h₁
          rw [← lookup_isSome_iff, Option.isSome_iff_ne_none, ne_eq, Decidable.not_not] at h₁ h₂
          rw [h₁, h₂]
        · simpa [lookup_cons_ite, hname] using hl name
  exact aux _ _ s.ascending hkeys h

theorem modify_of_not_mem {t : Table α} {name : String} (h : name ∉ t.keys) (f : α → α) : t.modify name f = t := by
  refine ext_get? fun other => ?_
  rw [get?_modify]
  split
  · next hother =>
    rw [hother, (t.get?_eq_none_iff name).2 h]
    rfl
  · rfl

/-! ## Bindings of distinct names -/

theorem get?_ofList_of_nodup {l : List (String × α)} (h : (l.map Prod.fst).Nodup) (name : String) :
    (ofList l).get? name = l.lookup name := by
  refine Option.ext fun value => ?_
  rw [get?_ofList_eq_some_iff, lookup_eq_some_iff h]
  constructor
  · rintro ⟨earlier, later, rfl, -⟩
    exact List.mem_append_right _ List.mem_cons_self
  · intro hmem
    obtain ⟨earlier, later, rfl⟩ := List.append_of_mem hmem
    refine ⟨earlier, later, rfl, fun e he heq => ?_⟩
    rw [List.map_append, List.map_cons] at h
    exact (List.nodup_cons.1 (List.nodup_append.1 h).2.1).1 (List.mem_map.2 ⟨e, he, heq⟩)

theorem ofList_of_perm {t : Table α} {entries : List (String × α)} (h : entries.Perm t.entries) : ofList entries = t := by
  have hnodup : (entries.map Prod.fst).Nodup := ((h.map Prod.fst).nodup_iff).2 t.nodup_keys
  refine ext_get? fun name => Option.ext fun value => ?_
  rw [get?_ofList_of_nodup hnodup, lookup_eq_some_iff hnodup, h.mem_iff, get?_eq_some_iff]

theorem entries_eq_map_keys (t : Table α) (default : α) : t.entries = t.keys.map fun name => (name, t.getD name default) := by
  have hvalue : ∀ e ∈ t.entries, (e.1, t.getD e.1 default) = id e := fun e he => by
    unfold getD
    rw [t.get?_eq_some_iff.2 he]
    rfl
  unfold keys
  rw [List.map_map]
  exact (List.map_id t.entries).symm.trans (List.map_congr_left hvalue).symm

end Table

end Rollout
