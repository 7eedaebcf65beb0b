namespace TruthTables.Entries

def get? {α : Type} (name : String) : List (String × α) → Option α
  | [] => none
  | (key, value) :: rest => if key = name then some value else get? name rest

/-- A name that is there already keeps its place. -/
def put {α : Type} (name : String) (value : α) : List (String × α) → List (String × α)
  | [] => [(name, value)]
  | (key, old) :: rest =>
    if key = name then (name, value) :: rest else (key, old) :: put name value rest

theorem get?_put {α : Type} (name : String) (value : α) (entries : List (String × α))
    (x : String) :
    get? x (put name value entries) = if name = x then some value else get? x entries := by
  induction entries with
  | nil => rfl
  | cons entry rest ih =>
    obtain ⟨key, old⟩ := entry
    by_cases hk : key = name
    · subst hk
      by_cases hx : key = x <;> simp [put, get?, hx]
    · by_cases hx : key = x
      · subst hx
        simp [put, get?, hk, Ne.symm hk]
      · simp [put, get?, hk, hx, ih]

end TruthTables.Entries
