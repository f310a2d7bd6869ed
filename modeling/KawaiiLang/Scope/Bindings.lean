namespace KawaiiLang

/-- Names bound to values. A name is bound once at most: binding it again replaces
    its value. -/
structure Bindings (α : Type) where
  entries : List (String × α) := []
  deriving Inhabited

namespace Bindings

variable {α : Type}

/-- No name is bound. -/
def empty : Bindings α :=
  {}

/-- The value of the first entry for `name`. -/
def findEntry (name : String) : List (String × α) → Option α
  | [] => none
  | entry :: entries => if entry.1 = name then some entry.2 else findEntry name entries

/-- The value of `name`, if it is bound. -/
def find? (bindings : Bindings α) (name : String) : Option α :=
  findEntry name bindings.entries

/-- The entries with `name` bound to `value`, in the place that the name already
    has or else behind all others. -/
def insertEntry (name : String) (value : α) : List (String × α) → List (String × α)
  | [] => [(name, value)]
  | entry :: entries =>
    if entry.1 = name then (name, value) :: entries else entry :: insertEntry name value entries

/-- Binds `name` to `value`, whether or not it is bound already. -/
def insert (bindings : Bindings α) (name : String) (value : α) : Bindings α :=
  ⟨insertEntry name value bindings.entries⟩

/-- Binds names to values pair by pair, from the first pair to the last. -/
def insertAll (bindings : Bindings α) (pairs : List (String × α)) : Bindings α :=
  pairs.foldl (fun known pair => known.insert pair.1 pair.2) bindings

/-- The bound names in increasing order. -/
def names (bindings : Bindings α) : List String :=
  (bindings.entries.map Prod.fst).mergeSort fun a b => decide (a ≤ b)

@[simp] theorem find?_empty (name : String) : (empty : Bindings α).find? name = none :=
  rfl

theorem find?_insert (bindings : Bindings α) (name other : String) (value : α) :
    (bindings.insert name value).find? other =
      if other = name then some value else bindings.find? other := by
  obtain ⟨entries⟩ := bindings
  simp only [insert, find?]
  induction entries with
  | nil => grind [insertEntry, findEntry]
  | cons entry entries ih => grind [insertEntry, findEntry]

end Bindings
end KawaiiLang
