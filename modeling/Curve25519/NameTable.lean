/-! Tables of values by name. -/

namespace Curve25519

/-- Values by name; a later value of a name hides an earlier one. -/
structure NameTable (α : Type) where
  entries : List (String × α)

namespace NameTable

def empty {α : Type} : NameTable α := ⟨[]⟩

def get? {α : Type} (table : NameTable α) (name : String) : Option α := table.entries.lookup name

def put {α : Type} (table : NameTable α) (name : String) (value : α) : NameTable α :=
  ⟨(name, value) :: table.entries⟩

theorem get?_put {α : Type} (table : NameTable α) (name other : String) (value : α) :
    (table.put name value).get? other = if other = name then some value else table.get? other := by
  rw [get?, put, List.lookup_cons]
  by_cases same : other = name
  · simp [same]
  · have differ : (other == name) = false := by simpa using same
    simp [same, differ, get?]

end NameTable

end Curve25519
