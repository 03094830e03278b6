/-!
# Tables of names

Constants, variables and functions are all looked up by exact name. A `Table` keeps one entry a
name; the order of its entries is not part of its meaning, and whatever is listed for a reader is
sorted by name.
-/

namespace Formula

/-- What names stand for. Of two entries with one name the first counts. -/
structure Table (α : Type) where
  entries : List (String × α)

namespace Table

variable {α : Type}

def empty : Table α := ⟨[]⟩

instance : Inhabited (Table α) := ⟨empty⟩

instance : EmptyCollection (Table α) := ⟨empty⟩

/-- What a name stands for, if anything. -/
def get? (t : Table α) (name : String) : Option α := t.entries.lookup name

def contains (t : Table α) (name : String) : Bool := (t.get? name).isSome

/-- The table without a name. -/
def erase (t : Table α) (name : String) : Table α := ⟨t.entries.filter (·.1 != name)⟩

/-- The table in which a name stands for `a`, whatever it stood for before. -/
def insert (t : Table α) (name : String) (a : α) : Table α :=
  ⟨(name, a) :: (t.erase name).entries⟩

/-- The table of a list of bindings, in which later ones replace earlier ones. -/
def ofList (bindings : List (String × α)) : Table α :=
  bindings.foldl (fun t binding ↦ t.insert binding.1 binding.2) empty

/-- Two tables in one; where both have a name, the one on top counts. -/
def overlay (below above : Table α) : Table α :=
  ⟨above.entries ++ below.entries.filter (!above.contains ·.1)⟩

/-- The entries, sorted by name. -/
def sorted (t : Table α) : List (String × α) :=
  t.entries.mergeSort fun a b ↦ decide (a.1 ≤ b.1)

/-! ## Looking up -/

theorem lookup_filter (p : String → Bool) (entries : List (String × α)) (name : String) :
    (entries.filter (p ·.1)).lookup name = if p name then entries.lookup name else none := by
  induction entries with
  | nil => simp
  | cons entry entries ih =>
    obtain ⟨key, a⟩ := entry
    rw [List.filter_cons, List.lookup_cons]
    by_cases hkey : name = key
    · subst hkey
      by_cases hp : p name
      · simp [hp]
      · simpa [hp] using ih
    · have hne : (name == key) = false := by simpa using hkey
      by_cases hp : p key <;> simp [hp, hne, ih, List.lookup_cons]

@[simp] theorem get?_empty (name : String) : (empty : Table α).get? name = none := rfl

@[simp] theorem get?_erase (t : Table α) (erased name : String) :
    (t.erase erased).get? name = if name = erased then none else t.get? name := by
  simp only [get?, erase, lookup_filter (· != erased)]
  by_cases h : name = erased <;> simp [h]

@[simp] theorem get?_insert (t : Table α) (inserted name : String) (a : α) :
    (t.insert inserted a).get? name = if name = inserted then some a else t.get? name := by
  have herase := get?_erase t inserted name
  rw [get?, insert, List.lookup_cons]
  by_cases h : name = inserted
  · simp [h]
  · have hne : (name == inserted) = false := by simpa using h
    simpa [hne, h, get?] using herase

/-- **Overlaying is lookup with a fallback.** -/
@[simp] theorem get?_overlay (below above : Table α) (name : String) :
    (below.overlay above).get? name = (above.get? name).or (below.get? name) := by
  simp only [get?, overlay, List.lookup_append, lookup_filter (fun key ↦ !above.contains key)]
  cases h : above.entries.lookup name <;> simp [contains, get?, h]

end Table

end Formula
