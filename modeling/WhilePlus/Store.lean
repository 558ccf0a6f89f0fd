import WhilePlus.Text.Character
import WhilePlus.Value

namespace WhilePlus

/-- Puts a binding into a list ordered by name, in place of an older one with
    that name. -/
def insertBinding {α : Type} (name : String) (a : α) : List (String × α) → List (String × α)
  | [] => [(name, a)]
  | (other, b) :: rest =>
    if Text.Precedes name other then (name, a) :: (other, b) :: rest
    else if name = other then (name, a) :: rest
    else (other, b) :: insertBinding name a rest

/-- The order of bindings in a store: names strictly increase. -/
def Increasing {α : Type} (bindings : List (String × α)) : Prop :=
  bindings.Pairwise fun a b => Text.Precedes a.1 b.1

/-- A binding is a new one or was there before. -/
theorem mem_insertBinding {α : Type} {name : String} {a : α} {bindings : List (String × α)}
    {entry : String × α} (h : entry ∈ insertBinding name a bindings) :
    entry = (name, a) ∨ entry ∈ bindings := by
  induction bindings with
  | nil => simpa [insertBinding] using h
  | cons head rest ih =>
    obtain ⟨other, b⟩ := head
    simp only [insertBinding] at h
    split at h
    · simpa using h
    · split at h
      · rcases List.mem_cons.mp h with h | h
        · exact .inl h
        · exact .inr (List.mem_cons_of_mem _ h)
      · rcases List.mem_cons.mp h with h | h
        · exact .inr (h ▸ List.mem_cons_self)
        · exact (ih h).imp id (List.mem_cons_of_mem _)

/-- Under the name of the new binding its value is found, and under any other
    name what was there before. The list need not be ordered. -/
theorem lookup_insertBinding {α : Type} (name other : String) (a : α)
    (bindings : List (String × α)) :
    (insertBinding name a bindings).lookup other =
      if other = name then some a else bindings.lookup other := by
  induction bindings with
  | nil => grind [insertBinding]
  | cons head rest ih => grind [insertBinding]

/-- A new binding keeps the order of the names. -/
theorem increasing_insertBinding {α : Type} (name : String) (a : α)
    {bindings : List (String × α)} (h : Increasing bindings) :
    Increasing (insertBinding name a bindings) := by
  induction bindings with
  | nil => simp [insertBinding, Increasing]
  | cons head rest ih =>
    obtain ⟨other, b⟩ := head
    obtain ⟨hhead, hrest⟩ := List.pairwise_cons.mp h
    simp only [insertBinding]
    split
    · rename_i hlt
      refine List.pairwise_cons.mpr ⟨?_, h⟩
      intro entry hentry
      rcases List.mem_cons.mp hentry with rfl | hentry
      · exact hlt
      · exact hlt.trans (hhead entry hentry)
    · split
      · rename_i heq
        subst heq
        exact List.pairwise_cons.mpr ⟨hhead, hrest⟩
      · rename_i hlt hne
        refine List.pairwise_cons.mpr ⟨?_, ih hrest⟩
        intro entry hentry
        rcases mem_insertBinding hentry with rfl | hentry
        · exact (Text.precedes_or_precedes_of_ne hne).resolve_left hlt
        · exact hhead entry hentry

/-- A finite map from names to cells. The bindings are in increasing order of
    the names, which are compared by their bytes, so that two stores with the
    same bindings are the same store. -/
structure Store where
  bindings : List (String × Cell)
  increasing : Increasing bindings
  deriving DecidableEq

namespace Store

/-- The store that binds nothing. -/
def empty : Store := ⟨[], List.Pairwise.nil⟩

instance : Inhabited Store := ⟨empty⟩

/-- What a name is bound to; `none` if it is not bound at all. -/
def get? (s : Store) (name : String) : Option Cell :=
  s.bindings.lookup name

/-- The store with one name bound anew. -/
def set (s : Store) (name : String) (cell : Cell) : Store :=
  ⟨insertBinding name cell s.bindings, increasing_insertBinding name cell s.increasing⟩

/-- Binding a name changes what it is bound to, and nothing else. -/
theorem get?_set (s : Store) (name other : String) (cell : Cell) :
    (s.set name cell).get? other = if other = name then some cell else s.get? other :=
  lookup_insertBinding name other cell s.bindings

/-- The store that holds the given bindings; of two with one name the later
    wins. -/
def ofList (bindings : List (String × Cell)) : Store :=
  bindings.foldl (fun s b => s.set b.1 b.2) empty

/-- The bound names, in increasing order. -/
def names (s : Store) : List String :=
  s.bindings.map Prod.fst

/-- The number of bound names. -/
def size (s : Store) : Nat :=
  s.bindings.length

/-- Whether two stores hold the same. They bind equally many names, and what one
    of them binds is bound alike in the other. -/
def equal (s other : Store) : Bool :=
  s.size == other.size && s.bindings.all fun b =>
    match other.get? b.1 with
    | some cell => b.2.equal cell
    | none => false

instance : BEq Store := ⟨equal⟩

/-- The store as one line: names and cells between braces. -/
def display (s : Store) : String :=
  "\x7b" ++ ", ".intercalate (s.bindings.map fun b => b.1 ++ ": " ++ b.2.display) ++ "\x7d"

end Store

/-- The log as text: every line ends with a newline. -/
def renderLog (lines : List String) : String :=
  String.join (lines.map (· ++ "\n"))

end WhilePlus
