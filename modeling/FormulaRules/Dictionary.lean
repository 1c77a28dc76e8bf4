/-!
# Dictionaries with ascending names

A finite map from names to entries, kept as a list whose names ascend strictly. Names are
compared by code points. One list represents each map, so two dictionaries are equal as
soon as they answer every name alike (`Dictionary.ext_get?`).

A later insertion replaces an earlier one (`get?_insert`), and laying one dictionary over
another keeps the upper entry of a shared name (`get?_layOver`).
-/

namespace FormulaRules

universe u

/-- Entries whose names ascend strictly. -/
def Ascending {α : Type u} (entries : List (String × α)) : Prop :=
  entries.Pairwise fun a b => a.1 < b.1

/-- A finite map from names to entries. -/
structure Dictionary (α : Type u) where
  /-- The named entries, in ascending order of their names. -/
  toList : List (String × α)
  ascending : Ascending toList

namespace Dictionary

variable {α : Type u}

/-- The entry stored under a name in a list of named entries. -/
def find? (name : String) : List (String × α) → Option α
  | [] => none
  | (key, entry) :: rest => if key = name then some entry else find? name rest

/-- Put an entry in its place, replacing one of the same name. -/
def place (name : String) (entry : α) : List (String × α) → List (String × α)
  | [] => [(name, entry)]
  | (key, old) :: rest =>
    if name < key then (name, entry) :: (key, old) :: rest
    else if name = key then (name, entry) :: rest
    else (key, old) :: place name entry rest

/-- Placing adds no name but the given one. -/
theorem mem_place {name : String} {entry : α} {p : String × α} {entries : List (String × α)}
    (h : p ∈ place name entry entries) : p = (name, entry) ∨ p ∈ entries := by
  induction entries with
  | nil => simpa [place] using h
  | cons head rest ih =>
    obtain ⟨key, old⟩ := head
    rw [place] at h
    split at h
    · simpa using h
    · split at h
      · simp only [List.mem_cons] at h ⊢
        rcases h with h | h
        · exact .inl h
        · exact .inr (.inr h)
      · simp only [List.mem_cons] at h ⊢
        rcases h with h | h
        · exact .inr (.inl h)
        · rcases ih h with h | h
          · exact .inl h
          · exact .inr (.inr h)

/-- Placing keeps the names in strictly ascending order. -/
theorem ascending_place {name : String} {entry : α} {entries : List (String × α)}
    (h : Ascending entries) : Ascending (place name entry entries) := by
  induction entries with
  | nil => simp [place, Ascending]
  | cons head rest ih =>
    obtain ⟨key, old⟩ := head
    obtain ⟨hkey, hrest⟩ := List.pairwise_cons.1 h
    rw [place]
    split
    · rename_i hlt
      refine List.pairwise_cons.2 ⟨fun p hp => ?_, h⟩
      rcases List.mem_cons.1 hp with rfl | hp
      · exact hlt
      · exact String.lt_trans hlt (hkey p hp)
    · split
      · rename_i heq
        subst heq
        exact List.pairwise_cons.2 ⟨hkey, hrest⟩
      · rename_i hge hne
        refine List.pairwise_cons.2 ⟨fun p hp => ?_, ih hrest⟩
        rcases mem_place hp with rfl | hp
        · refine String.not_le.1 fun hle => hne ?_
          exact String.le_antisymm hle (String.not_lt.1 hge)
        · exact hkey p hp

/-- The placed entry answers its own name, and every other name answers as before. -/
theorem find?_place (name query : String) (entry : α) (entries : List (String × α)) :
    find? query (place name entry entries) =
      if name = query then some entry else find? query entries := by
  induction entries with
  | nil => rfl
  | cons head rest ih =>
    obtain ⟨key, old⟩ := head
    rw [place]
    split
    · rfl
    · split
      · rename_i heq
        subst heq
        by_cases h : name = query <;> simp [find?, h]
      · rename_i hne
        by_cases hkey : key = query
        · subst hkey
          simp [find?, hne]
        · simp [find?, hkey, ih]

/-- A name below every stored name is not stored. -/
theorem find?_eq_none_of_lt {query : String} {entries : List (String × α)}
    (h : ∀ p ∈ entries, query < p.1) : find? query entries = none := by
  induction entries with
  | nil => rfl
  | cons head rest ih =>
    obtain ⟨key, old⟩ := head
    have hlt : query < key := h (key, old) (by simp)
    have hne : key ≠ query := fun heq => String.lt_irrefl query (by simp [heq] at hlt)
    simp only [find?, if_neg hne]
    exact ih fun p hp => h p (by simp [hp])

/-- What is found under a name is stored under it. -/
theorem mem_of_find? {query : String} {entry : α} {entries : List (String × α)}
    (h : find? query entries = some entry) : (query, entry) ∈ entries := by
  induction entries with
  | nil => simp [find?] at h
  | cons head rest ih =>
    obtain ⟨key, old⟩ := head
    by_cases hkey : key = query
    · subst hkey
      simp only [find?, if_true, Option.some.injEq] at h
      simp [h]
    · simp only [find?, if_neg hkey] at h
      exact List.mem_cons_of_mem _ (ih h)

/-- In ascending order, what is stored under a name is found under it. -/
theorem find?_of_mem {query : String} {entry : α} {entries : List (String × α)}
    (hasc : Ascending entries) (h : (query, entry) ∈ entries) :
    find? query entries = some entry := by
  induction entries with
  | nil => simp at h
  | cons head rest ih =>
    obtain ⟨key, old⟩ := head
    obtain ⟨hkey, hrest⟩ := List.pairwise_cons.1 hasc
    rcases List.mem_cons.1 h with h | h
    · cases h
      simp [find?]
    · have hlt : key < query := hkey (query, entry) h
      have hne : key ≠ query := fun heq => String.lt_irrefl key (by simp [heq] at hlt)
      simp only [find?, if_neg hne]
      exact ih hrest h

/-- Ascending lists that answer every name alike are the same list. -/
theorem eq_of_find?_eq {left right : List (String × α)} (hleft : Ascending left)
    (hright : Ascending right) (h : ∀ query, find? query left = find? query right) :
    left = right := by
  induction left generalizing right with
  | nil =>
    cases right with
    | nil => rfl
    | cons head rest => simpa [find?] using h head.1
  | cons head rest ih =>
    obtain ⟨key, entry⟩ := head
    obtain ⟨hkey, hrest⟩ := List.pairwise_cons.1 hleft
    cases right with
    | nil => simpa [find?] using h key
    | cons head' rest' =>
      obtain ⟨key', entry'⟩ := head'
      obtain ⟨hkey', hrest'⟩ := List.pairwise_cons.1 hright
      have hle : ∀ {k k' : String} {e : α} {s s' : List (String × α)} {e' : α},
          (∀ p ∈ s', k' < p.1) → find? k ((k, e) :: s) = find? k ((k', e') :: s') → k' ≤ k := by
        intro k k' e s s' e' hs' heq
        refine String.not_lt.1 fun hlt => ?_
        have hbelow : ∀ p ∈ (k', e') :: s', k < p.1 := by
          intro p hp
          rcases List.mem_cons.1 hp with rfl | hp
          · exact hlt
          · exact String.lt_trans hlt (hs' p hp)
        rw [find?_eq_none_of_lt hbelow] at heq
        simp [find?] at heq
      have heq : key = key' :=
        String.le_antisymm (hle hkey (h key').symm) (hle hkey' (h key))
      subst heq
      have hentry : entry = entry' := by simpa [find?] using h key
      subst hentry
      refine congrArg _ (ih hrest hrest' fun query => ?_)
      by_cases hq : key = query
      · subst hq
        rw [find?_eq_none_of_lt hkey, find?_eq_none_of_lt hkey']
      · simpa [find?, hq] using h query

/-- The dictionary without entries. -/
def empty : Dictionary α := ⟨[], List.Pairwise.nil⟩

instance : EmptyCollection (Dictionary α) := ⟨empty⟩

instance : Inhabited (Dictionary α) := ⟨empty⟩

/-- The entry of a name. -/
def get? (d : Dictionary α) (name : String) : Option α := find? name d.toList

/-- Whether a name has an entry. -/
def contains (d : Dictionary α) (name : String) : Bool := (d.get? name).isSome

/-- Add an entry, replacing one of the same name. -/
def insert (d : Dictionary α) (name : String) (entry : α) : Dictionary α :=
  ⟨place name entry d.toList, ascending_place d.ascending⟩

/-- Collect pairs; of two pairs with one name the later counts. -/
def ofList (pairs : List (String × α)) : Dictionary α :=
  pairs.foldl (fun d p => d.insert p.1 p.2) empty

/-- Lay one dictionary over another: shared names keep the upper entry. -/
def layOver (upper lower : Dictionary α) : Dictionary α :=
  upper.toList.foldl (fun d p => d.insert p.1 p.2) lower

/-- The names, ascending. -/
def names (d : Dictionary α) : List String := d.toList.map Prod.fst

/-- The number of names. -/
def size (d : Dictionary α) : Nat := d.toList.length

/-- Whether no name has an entry. -/
def isEmpty (d : Dictionary α) : Bool := d.toList.isEmpty

/-- Entries are compared by their own `==`. -/
instance [BEq α] : BEq (Dictionary α) := ⟨fun d e => d.toList == e.toList⟩

/-- Dictionaries that answer every name alike are equal. -/
theorem ext_get? {d e : Dictionary α} (h : ∀ name, d.get? name = e.get? name) : d = e := by
  obtain ⟨left, hleft⟩ := d
  obtain ⟨right, hright⟩ := e
  cases eq_of_find?_eq hleft hright h
  rfl

/-- The empty dictionary answers no name. -/
theorem get?_empty (name : String) : (empty : Dictionary α).get? name = none := rfl

/-- The last insertion under a name answers it. -/
theorem get?_insert (d : Dictionary α) (name query : String) (entry : α) :
    (d.insert name entry).get? query = if name = query then some entry else d.get? query :=
  find?_place name query entry d.toList

/-- A name is looked up in the first list, then in the second. -/
theorem find?_append (query : String) (left right : List (String × α)) :
    find? query (left ++ right) = (find? query left).or (find? query right) := by
  induction left with
  | nil => rfl
  | cons head rest ih =>
    by_cases h : head.1 = query <;> simp [find?, h, ih]

/-- Inserting pairs in order answers with the last pair of the name, else as before. -/
theorem get?_foldl_insert (pairs : List (String × α)) (d : Dictionary α) (query : String) :
    (pairs.foldl (fun d p => d.insert p.1 p.2) d).get? query =
      (find? query pairs.reverse).or (d.get? query) := by
  induction pairs generalizing d with
  | nil => rfl
  | cons head rest ih =>
    rw [List.foldl_cons, ih, get?_insert, List.reverse_cons, find?_append, Option.or_assoc]
    by_cases h : head.1 = query <;> simp [find?, h]

/-- Collected pairs answer with the last pair of the name. -/
theorem get?_ofList (pairs : List (String × α)) (query : String) :
    (ofList pairs).get? query = find? query pairs.reverse := by
  rw [ofList, get?_foldl_insert, get?_empty, Option.or_none]

/-- In ascending order the direction of a search does not matter. -/
theorem find?_reverse {entries : List (String × α)} (h : Ascending entries) (query : String) :
    find? query entries.reverse = find? query entries := by
  induction entries with
  | nil => rfl
  | cons head rest ih =>
    obtain ⟨hhead, hrest⟩ := List.pairwise_cons.1 h
    rw [List.reverse_cons, find?_append, ih hrest]
    by_cases hkey : head.1 = query
    · subst hkey
      simp [find?_eq_none_of_lt hhead, find?]
    · simp [find?, hkey]

/-- A lookup in layered dictionaries asks the upper one first. -/
theorem get?_layOver (upper lower : Dictionary α) (query : String) :
    (upper.layOver lower).get? query = (upper.get? query).or (lower.get? query) := by
  rw [layOver, get?_foldl_insert, find?_reverse upper.ascending]
  rfl

/-- A name is contained when it has an entry. -/
theorem contains_iff (d : Dictionary α) (name : String) :
    d.contains name = true ↔ ∃ entry, d.get? name = some entry := by
  rw [contains, Option.isSome_iff_exists]

/-- A name is found in a list of named entries if it is one of the names. -/
theorem isSome_find?_iff (query : String) (entries : List (String × α)) :
    (find? query entries).isSome = true ↔ query ∈ entries.map Prod.fst := by
  induction entries with
  | nil => simp [find?]
  | cons head rest ih =>
    by_cases h : head.1 = query
    · simp [find?, h]
    · simp only [find?, if_neg h, ih, List.map_cons, List.mem_cons, Ne.symm h, false_or]

/-- The names are those that have an entry. -/
theorem mem_names_iff (d : Dictionary α) (name : String) :
    name ∈ d.names ↔ d.contains name = true :=
  (isSome_find?_iff name d.toList).symm

/-- The names of collected pairs are those of the pairs. -/
theorem mem_names_ofList (pairs : List (String × α)) (name : String) :
    name ∈ (ofList pairs).names ↔ name ∈ pairs.map Prod.fst := by
  rw [mem_names_iff, contains, get?_ofList, isSome_find?_iff, List.map_reverse, List.mem_reverse]

/-- The names ascend strictly, so none occurs twice. -/
theorem names_ascending (d : Dictionary α) : d.names.Pairwise (· < ·) :=
  List.pairwise_map.2 d.ascending

end Dictionary

end FormulaRules
