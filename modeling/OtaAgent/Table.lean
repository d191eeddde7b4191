set_option autoImplicit false

namespace OtaAgent

/-- A list of pairs in strictly increasing order of their keys. -/
abbrev Table (α : Type) := List (String × α)

namespace Table

variable {α β : Type}

/-- `t` with `value` at `key`, in place of what is there. -/
def insert (key : String) (value : α) : Table α → Table α
  | [] => [(key, value)]
  | (k, v) :: rest =>
    if key < k then (key, value) :: (k, v) :: rest
    else if key = k then (key, value) :: rest
    else (k, v) :: insert key value rest

/-- The pairs of `entries`; of several with one key the last. -/
def ofList (entries : List (String × α)) : Table α :=
  entries.foldl (fun t e => insert e.1 e.2 t) []

def get? : Table α → String → Option α
  | [], _ => none
  | (k, v) :: rest, key => if key = k then some v else get? rest key

def contains (t : Table α) (key : String) : Bool := (get? t key).isSome

def keys (t : Table α) : List String := t.map (·.1)

theorem get?_insert (t : Table α) (key other : String) (value : α) :
    get? (insert key value t) other = if other = key then some value else get? t other := by
  induction t with
  | nil => rfl
  | cons e rest ih =>
    obtain ⟨k, v⟩ := e
    simp only [insert]
    split
    · rfl
    · split
      · rename_i hk
        subst hk
        by_cases h : other = key <;> simp [get?, h]
      · rename_i hk
        simp only [get?, ih]
        by_cases h : other = key
        · subst h; simp [hk]
        · simp [h]

end Table
end OtaAgent
