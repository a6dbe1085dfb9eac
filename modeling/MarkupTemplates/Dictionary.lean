import MarkupTemplates.Text.Basic

namespace MarkupTemplates

/-- Entries under distinct names, in the order of the names. -/
abbrev Dictionary (α : Type) := List (Text × α)

namespace Dictionary

variable {α : Type}

def get? (d : Dictionary α) (key : Text) : Option α :=
  (d.find? fun entry => entry.1 = key).map Prod.snd

def contains (d : Dictionary α) (key : Text) : Bool := (d.get? key).isSome

/-- The entry takes the place of an earlier one of the same name. -/
def insert (d : Dictionary α) (key : Text) (value : α) : Dictionary α :=
  match d with
  | [] => [(key, value)]
  | (k, v) :: rest =>
    if key = k then (key, value) :: rest
    else if key < k then (key, value) :: (k, v) :: rest
    else (k, v) :: insert rest key value

def erase (d : Dictionary α) (key : Text) : Dictionary α :=
  d.filter fun entry => entry.1 ≠ key

def keys (d : Dictionary α) : List Text := d.map Prod.fst

/-- The entries of both, where those of `above` hide those of `d`. -/
def overlay (d above : Dictionary α) : Dictionary α :=
  above.foldl (fun merged entry => merged.insert entry.1 entry.2) d

/-- Of several entries under one name the last one counts. -/
def ofList (entries : List (Text × α)) : Dictionary α := overlay [] entries

end Dictionary

/-- Distinct names in their order. -/
abbrev NameSet := List Text

def NameSet.insert (names : NameSet) (name : Text) : NameSet :=
  match names with
  | [] => [name]
  | n :: rest =>
    if name = n then n :: rest
    else if name < n then name :: n :: rest
    else n :: insert rest name

end MarkupTemplates
