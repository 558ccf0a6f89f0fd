import WhilePlus.Proofs.Document.Acceptance
import WhilePlus.Proofs.Document.PlaceText

namespace WhilePlus

namespace Document

section Steps

/-- The document that one step leads to. -/
def step? (d : Document) : Step → Option Document
  | .field name =>
    match d.fields with
    | .ok fs => fs.lookup name
    | .error _ => none
  | .index i =>
    match d with
    | .list items => items[i]?
    | _ => none

/-- The document at a place, if every step to it leads somewhere. -/
def at? (d : Document) : Place → Option Document
  | [] => some d
  | step :: rest => (d.step? step).bind (·.at? rest)

private theorem at?_append (d : Document) (p q : Place) : d.at? (p ++ q) = (d.at? p).bind (·.at? q) := by
  induction p generalizing d with
  | nil => rfl
  | cons step rest ih =>
    rw [List.cons_append, at?, at?]
    cases d.step? step with
    | none => rfl
    | some below => exact ih below

/-- A step to a field leads to what the fields hold under its name, if the
    document is a mapping. -/
theorem step?_field {d : Document} {fs : List (String × Document)} (h : d.fields = .ok fs)
    (name : String) : d.step? (.field name) = fs.lookup name := by
  rw [step?, h]

end Steps

/-- The two sorts of nodes. -/
inductive NodeSort where
  | expr
  | stmt
  deriving DecidableEq, Repr

namespace NodeSort

/-- The types of the nodes of a sort. -/
def types : NodeSort → List String
  | expr => ["Var", "Val", "IntLiteral", "BoolLiteral", "Op"]
  | stmt => ["Assign", "If", "While", "Sequence", "Seq", "Print", "Throw", "Try", "Skip"]

/-- What is wrong with a type that no node of the sort has. -/
def foreignType : NodeSort → String → Fault
  | expr => .unknownExpression
  | stmt => .unknownStatement

/-- Reads a node of a sort. -/
def decode : NodeSort → Document → Except DecodeError Node
  | expr, d => .expr <$> d.decodeExpr
  | stmt, d => .stmt <$> d.decodeStmt

end NodeSort

/-- What has to stand at a place of a node. -/
inductive Expected where
  | node (sort : NodeSort)
  /-- A text that is not empty. -/
  | text
  /-- A text, which may be left out. -/
  | lead
  | literal
  | integer
  | bool
  | operator
  | list
  | mapping
  deriving DecidableEq, Repr

/-- Whether a document is what has to stand at its place. Of a node this is said
    by the rules for trees. -/
def Expected.Fits : Expected → Document → Prop
  | .node .expr, d => ∃ e, DenotesExpr d e
  | .node .stmt, d => ∃ s, DenotesStmt d s
  | .text, d => ∃ s, s ≠ "" ∧ d = .text s
  | .lead, d => d = .null ∨ ∃ s, d = .text s
  | .literal, d => ∃ v, IsLiteral d v
  | .integer, d => ∃ n, IsInteger d n
  | .bool, d => ∃ b, d = .bool b
  | .operator, d => ∃ s op, s ≠ "" ∧ d = .text s ∧ Operator.parse? s = some op
  | .list, d => ∃ items, d = .list items
  | .mapping, d => ∃ fs, HasFields d fs

/-- A part of a node: its place below the node, and the document there, which is
    null if it is missing. -/
structure Part where
  place : Place
  expected : Expected
  found : Document

section Parts

/-- The part of a node under a name. -/
def Part.field (fs : List (String × Document)) (name : String) (expected : Expected) : Part :=
  ⟨[.field name], expected, member fs name⟩

/-- The statement under a name, if it is not left out. -/
def optionalParts (fs : List (String × Document)) (name : String) : List Part :=
  if (member fs name).isNull then [] else [.field fs name (.node .stmt)]

/-- The statements of a list, whose first has the given number. -/
def itemParts (index : Nat) : List Document → List Part
  | [] => []
  | item :: rest =>
    ⟨[.field "statements", .index index], .node .stmt, item⟩ :: itemParts (index + 1) rest

/-- The statements of a sequence that is written as a list. -/
def listParts (fs : List (String × Document)) : List Part :=
  match member fs "statements" with
  | .list items => itemParts 0 items
  | other => [⟨[.field "statements"], .list, other⟩]

/-- The parts of a node that its type asks for, in the order in which they are
    read. -/
def typeParts (fs : List (String × Document)) : List Part :=
  match nodeType fs with
  | "Var" => [.field fs "name" .text]
  | "Val" => [.field fs "value" .literal]
  | "IntLiteral" => [.field fs "value" .integer]
  | "BoolLiteral" => [.field fs "value" .bool]
  | "Op" => [.field fs "operator" .operator, .field fs "left" (.node .expr),
      .field fs "right" (.node .expr)]
  | "Assign" => [.field fs "name" .text, .field fs "value" (.node .expr)]
  | "If" => [.field fs "condition" (.node .expr), .field fs "then" (.node .stmt)] ++
      optionalParts fs "else"
  | "While" => [.field fs "condition" (.node .expr), .field fs "body" (.node .stmt)]
  | "Sequence" | "Seq" =>
    if (fs.lookup "statements").isSome then listParts fs
    else [.field fs "first" (.node .stmt), .field fs "second" (.node .stmt)]
  | "Print" => [.field fs "prefix" .lead, .field fs "expression" (.node .expr)]
  | "Throw" => [.field fs "expression" (.node .expr)]
  | "Try" => [.field fs "body" (.node .stmt), .field fs "binding" .text] ++
      optionalParts fs "handler"
  | _ => []

/-- The parts of a position, which may be left out. -/
def positionParts (fs : List (String × Document)) (name : String) : List Part :=
  if (member fs name).isNull then []
  else
    match (member fs name).fields with
    | .error _ => [⟨[.field "span", .field name], .mapping, member fs name⟩]
    | .ok parts =>
      [⟨[.field "span", .field name, .field "line"], .integer, member parts "line"⟩,
        ⟨[.field "span", .field name, .field "column"], .integer, member parts "column"⟩]

/-- The parts of a span, which may be left out. -/
def spanParts (fs : List (String × Document)) : List Part :=
  if (member fs "span").isNull then []
  else
    match (member fs "span").fields with
    | .error _ => [⟨[.field "span"], .mapping, member fs "span"⟩]
    | .ok parts => positionParts parts "start" ++ positionParts parts "end"

/-- The parts of a node in the order in which they are read. -/
def parts (fs : List (String × Document)) : List Part :=
  typeParts fs ++ spanParts fs

/-- Where the nodes of a program stand: below a node of the given sort there is,
    at a place, a node of some sort. What stands there may be missing or no node
    at all, so that it is null or not accepted. -/
inductive NodeAt (sort : NodeSort) (d : Document) : Place → NodeSort → Document → Prop where
  | root : NodeAt sort d [] sort d
  | part {outer inner : NodeSort} {d' : Document} {fs : List (String × Document)} {part : Part}
      {p : Place} (habove : NodeAt sort d p outer d') (hfields : d'.fields = .ok fs)
      (htype : nodeType fs ∈ outer.types) (hpart : part ∈ parts fs)
      (hnode : part.expected = .node inner) : NodeAt sort d (p ++ part.place) inner part.found

/-- A node that stands below a part of another node stands below that node. The
    part must be expected to be a node itself. -/
theorem NodeAt.inside {sort inner sort' : NodeSort} {d d' : Document} {fs : List (String × Document)}
    {part : Part} {p : Place} (hfields : d.fields = .ok fs) (htype : nodeType fs ∈ sort.types)
    (hpart : part ∈ parts fs) (hnode : part.expected = .node inner)
    (h : NodeAt inner part.found p sort' d') : NodeAt sort d (part.place ++ p) sort' d' := by
  induction h with
  | root =>
    rw [List.append_nil]
    exact .part .root hfields htype hpart hnode
  | part _ hfields' htype' hpart' hnode' ih =>
    rw [← List.append_assoc]
    exact .part ih hfields' htype' hpart' hnode'

end Parts

section Layout

variable {fs : List (String × Document)} {d : Document} {part : Part}

/-- Two places of which neither is on the way to the other. -/
def Apart (p q : Place) : Prop :=
  ¬ p <+: q ∧ ¬ q <+: p

private theorem apart_cons_of_ne {step step' : Step} (h : step ≠ step') (p q : Place) :
    Apart (step :: p) (step' :: q) :=
  ⟨fun hp => h (List.cons_prefix_cons.mp hp).1, fun hp => h (List.cons_prefix_cons.mp hp).1.symm⟩

private theorem apart_cons (step : Step) {p q : Place} (h : Apart p q) : Apart (step :: p) (step :: q) :=
  ⟨fun hp => h.1 (List.cons_prefix_cons.mp hp).2, fun hp => h.2 (List.cons_prefix_cons.mp hp).2⟩

/-- The items of a list, or what stands in place of a list. -/
theorem listParts_list {items : List Document} (h : member fs "statements" = .list items) :
    listParts fs = itemParts 0 items := by
  rw [listParts, h]

/-- A list of statements that is no list is one part, which cannot be read. -/
theorem listParts_other (h : ∀ items, member fs "statements" ≠ .list items) :
    listParts fs = [.field fs "statements" .list] := by
  rw [listParts]
  split
  · next items hitems => exact absurd hitems (h items)
  · rfl

/-- Plain names of fields without repetition, none of which is that of the span,
    and what is expected there. -/
def Distinct (fields : List (String × Expected)) : Prop :=
  (fields.map Prod.fst).Nodup ∧ "span" ∉ fields.map Prod.fst ∧ ∀ f ∈ fields, (Step.field f.1).IsPlain

instance (fields : List (String × Expected)) : Decidable (Distinct fields) :=
  inferInstanceAs (Decidable (_ ∧ _ ∧ _))

/-- The parts of a node are the items of its list of statements, or stand in
    fields with different names. -/
theorem typeParts_cases (fs : List (String × Document)) :
    (∃ items, member fs "statements" = .list items ∧ typeParts fs = itemParts 0 items) ∨
      ∃ fields, Distinct fields ∧ typeParts fs = fields.map fun f => .field fs f.1 f.2 := by
  unfold typeParts
  split
  · exact .inr ⟨[("name", .text)], by decide, rfl⟩
  · exact .inr ⟨[("value", .literal)], by decide, rfl⟩
  · exact .inr ⟨[("value", .integer)], by decide, rfl⟩
  · exact .inr ⟨[("value", .bool)], by decide, rfl⟩
  · exact .inr ⟨[("operator", .operator), ("left", .node .expr), ("right", .node .expr)], by decide, rfl⟩
  · exact .inr ⟨[("name", .text), ("value", .node .expr)], by decide, rfl⟩
  · unfold optionalParts
    split
    · exact .inr ⟨[("condition", .node .expr), ("then", .node .stmt)], by decide, rfl⟩
    · exact .inr ⟨[("condition", .node .expr), ("then", .node .stmt), ("else", .node .stmt)], by decide,
        rfl⟩
  · exact .inr ⟨[("condition", .node .expr), ("body", .node .stmt)], by decide, rfl⟩
  case h_9 | h_10 =>
    split
    · by_cases hlist : ∃ items, member fs "statements" = .list items
      · obtain ⟨items, hitems⟩ := hlist
        exact .inl ⟨items, hitems, listParts_list hitems⟩
      · exact .inr ⟨[("statements", .list)], by decide,
          listParts_other fun items hitems => hlist ⟨items, hitems⟩⟩
    · exact .inr ⟨[("first", .node .stmt), ("second", .node .stmt)], by decide, rfl⟩
  · exact .inr ⟨[("prefix", .lead), ("expression", .node .expr)], by decide, rfl⟩
  · exact .inr ⟨[("expression", .node .expr)], by decide, rfl⟩
  · unfold optionalParts
    split
    · exact .inr ⟨[("body", .node .stmt), ("binding", .text)], by decide, rfl⟩
    · exact .inr ⟨[("body", .node .stmt), ("binding", .text), ("handler", .node .stmt)], by decide, rfl⟩
  · exact .inr ⟨[], by decide, rfl⟩

/-- A part of a list is one of its items, at the place of its number. -/
theorem itemParts_place {index : Nat} {items : List Document} (h : part ∈ itemParts index items) :
    ∃ i, part = ⟨[.field "statements", .index (index + i)], .node .stmt, part.found⟩ ∧
      items[i]? = some part.found := by
  induction items generalizing index with
  | nil => cases h
  | cons item rest ih =>
    rcases List.mem_cons.mp h with rfl | h
    · exact ⟨0, rfl, rfl⟩
    · obtain ⟨i, hpart, hfound⟩ := ih h
      exact ⟨i + 1, by rw [← Nat.add_assoc, Nat.add_right_comm]; exact hpart, hfound⟩

private theorem pairwise_itemParts (index : Nat) (items : List Document) :
    (itemParts index items).Pairwise fun a b => Apart a.place b.place := by
  induction items generalizing index with
  | nil => exact .nil
  | cons item rest ih =>
    refine List.pairwise_cons.mpr ⟨fun part hpart => ?_, ih (index + 1)⟩
    obtain ⟨i, hpart, -⟩ := itemParts_place hpart
    rw [hpart]
    refine apart_cons _ (apart_cons_of_ne (fun hindex => ?_) _ _)
    have := Step.index.inj hindex
    omega

private theorem pairwise_typeParts (fs : List (String × Document)) :
    (typeParts fs).Pairwise fun a b => Apart a.place b.place := by
  obtain ⟨items, -, hparts⟩ | ⟨fields, hdistinct, hparts⟩ := typeParts_cases fs
  · rw [hparts]
    exact pairwise_itemParts 0 items
  · rw [hparts, List.pairwise_map]
    refine (List.pairwise_map.mp hdistinct.1).imp fun hne => ?_
    exact apart_cons_of_ne (fun hstep => hne (Step.field.inj hstep)) _ _

private theorem typeParts_place (h : part ∈ typeParts fs) :
    ∃ name rest, part.place = .field name :: rest ∧ name ≠ "span" := by
  obtain ⟨items, -, hparts⟩ | ⟨fields, hdistinct, hparts⟩ := typeParts_cases fs
  · rw [hparts] at h
    obtain ⟨i, hpart, -⟩ := itemParts_place h
    rw [hpart]
    exact ⟨_, _, rfl, by decide⟩
  · rw [hparts] at h
    obtain ⟨field, hfield, rfl⟩ := List.mem_map.mp h
    exact ⟨_, _, rfl, fun hspan => hdistinct.2.1 (hspan ▸ List.mem_map_of_mem hfield)⟩

private theorem positionParts_place {name : String} (h : part ∈ positionParts fs name) :
    ∃ rest, part.place = .field "span" :: .field name :: rest := by
  unfold positionParts at h
  split at h
  · cases h
  split at h
  · obtain rfl := List.mem_singleton.mp h
    exact ⟨_, rfl⟩
  · simp only [List.mem_cons, List.not_mem_nil, or_false] at h
    rcases h with rfl | rfl <;> exact ⟨_, rfl⟩

private theorem pairwise_positionParts (fs : List (String × Document)) (name : String) :
    (positionParts fs name).Pairwise fun a b => Apart a.place b.place := by
  unfold positionParts
  split
  · exact .nil
  split
  · exact List.pairwise_singleton _ _
  · refine List.pairwise_pair.mpr ?_
    exact apart_cons _ (apart_cons _ (apart_cons_of_ne (by decide) _ _))

private theorem spanParts_place (h : part ∈ spanParts fs) : ∃ rest, part.place = .field "span" :: rest := by
  unfold spanParts at h
  split at h
  · cases h
  split at h
  · obtain rfl := List.mem_singleton.mp h
    exact ⟨_, rfl⟩
  · rcases List.mem_append.mp h with h | h
    · obtain ⟨rest, hplace⟩ := positionParts_place h
      exact ⟨_, hplace⟩
    · obtain ⟨rest, hplace⟩ := positionParts_place h
      exact ⟨_, hplace⟩

private theorem pairwise_spanParts (fs : List (String × Document)) :
    (spanParts fs).Pairwise fun a b => Apart a.place b.place := by
  unfold spanParts
  split
  · exact .nil
  split
  · exact List.pairwise_singleton _ _
  · refine List.pairwise_append.mpr ⟨pairwise_positionParts _ _, pairwise_positionParts _ _, ?_⟩
    intro a ha b hb
    obtain ⟨rest, hplace⟩ := positionParts_place ha
    obtain ⟨rest', hplace'⟩ := positionParts_place hb
    rw [hplace, hplace']
    exact apart_cons _ (apart_cons_of_ne (by decide) _ _)

/-- No part of a node stands on the way to another one. -/
theorem pairwise_parts (fs : List (String × Document)) :
    (parts fs).Pairwise fun a b => Apart a.place b.place := by
  refine List.pairwise_append.mpr ⟨pairwise_typeParts fs, pairwise_spanParts fs, ?_⟩
  intro a ha b hb
  obtain ⟨name, rest, hplace, hne⟩ := typeParts_place ha
  obtain ⟨rest', hplace'⟩ := spanParts_place hb
  rw [hplace, hplace']
  exact apart_cons_of_ne (fun hstep => hne (Step.field.inj hstep)) _ _

/-- Every part stands below its node, never in its place. -/
theorem place_ne_nil (h : part ∈ parts fs) : part.place ≠ [] := by
  rcases List.mem_append.mp h with h | h
  · obtain ⟨name, rest, hplace, -⟩ := typeParts_place h
    rw [hplace]
    nofun
  · obtain ⟨rest, hplace⟩ := spanParts_place h
    rw [hplace]
    nofun

/-- The names on the way to a part are words of the format. -/
theorem isPlain_place (h : part ∈ parts fs) : part.place.IsPlain := by
  have hfield {name : String} {p : Place} (hname : (Step.field name).IsPlain) (hp : p.IsPlain) :
      Place.IsPlain (.field name :: p) := Place.isPlain_cons.mpr ⟨hname, hp⟩
  rcases List.mem_append.mp h with h | h
  · obtain ⟨items, -, hparts⟩ | ⟨fields, hdistinct, hparts⟩ := typeParts_cases fs
    · rw [hparts] at h
      obtain ⟨i, hpart, -⟩ := itemParts_place h
      rw [hpart]
      exact hfield (by decide) (Place.isPlain_cons.mpr ⟨trivial, Place.isPlain_nil⟩)
    · rw [hparts] at h
      obtain ⟨field, hmem, rfl⟩ := List.mem_map.mp h
      exact hfield (hdistinct.2.2 field hmem) Place.isPlain_nil
  · have hposition {inner : List (String × Document)} {name : String} (hname : (Step.field name).IsPlain)
        (h : part ∈ positionParts inner name) : part.place.IsPlain := by
      unfold positionParts at h
      split at h
      · cases h
      split at h
      · obtain rfl := List.mem_singleton.mp h
        exact hfield (by decide) (hfield hname Place.isPlain_nil)
      · rcases List.mem_pair.mp h with rfl | rfl <;>
          exact hfield (by decide) (hfield hname (hfield (by decide) Place.isPlain_nil))
    unfold spanParts at h
    split at h
    · cases h
    split at h
    · obtain rfl := List.mem_singleton.mp h
      exact hfield (by decide) Place.isPlain_nil
    · exact (List.mem_append.mp h).elim (hposition (by decide)) (hposition (by decide))

/-- A part stands one step below something that is there; it may itself be
    missing. -/
def Part.StandsIn (part : Part) (d : Document) : Prop :=
  ∃ before last outer, part.place = before ++ [last] ∧ d.at? before = some outer ∧
    (outer.step? last).getD .null = part.found

private theorem standsIn_field (hfields : d.fields = .ok fs) (name : String) (expected : Expected) :
    (Part.field fs name expected).StandsIn d :=
  ⟨[], .field name, d, rfl, rfl, by rw [step?_field hfields]; rfl⟩

private theorem Part.StandsIn.under {outer : Document} {step : Step} {part : Part} (h : part.StandsIn d)
    (expected : Expected) (hstep : outer.step? step = some d) :
    Part.StandsIn ⟨step :: part.place, expected, part.found⟩ outer := by
  obtain ⟨before, last, inner, hplace, hat, hfound⟩ := h
  refine ⟨step :: before, last, inner, by rw [hplace]; rfl, ?_, hfound⟩
  rw [at?, hstep]
  exact hat

private theorem lookup_of_fields {name : String} {inner : List (String × Document)}
    (h : (member fs name).fields = .ok inner) : fs.lookup name = some (member fs name) :=
  lookup_of_member (by rintro hnull; rw [hnull] at h; cases h) rfl

private theorem standsIn_position {name : String} (hfields : d.fields = .ok fs)
    (h : part ∈ positionParts fs name) :
    ∃ rest expected, part.place = .field "span" :: rest ∧ Part.StandsIn ⟨rest, expected, part.found⟩ d := by
  unfold positionParts at h
  split at h
  · cases h
  split at h
  · obtain rfl := List.mem_singleton.mp h
    exact ⟨_, .mapping, rfl, standsIn_field hfields name .mapping⟩
  · next inner hinner =>
    have hstep := (step?_field hfields name).trans (lookup_of_fields hinner)
    simp only [List.mem_cons, List.not_mem_nil, or_false] at h
    rcases h with rfl | rfl
    · exact ⟨_, .integer, rfl, (standsIn_field hinner "line" .integer).under _ hstep⟩
    · exact ⟨_, .integer, rfl, (standsIn_field hinner "column" .integer).under _ hstep⟩

private theorem standsIn_parts (hfields : d.fields = .ok fs) (h : part ∈ parts fs) : part.StandsIn d := by
  rcases List.mem_append.mp h with h | h
  · obtain ⟨items, hitems, hparts⟩ | ⟨fields, -, hparts⟩ := typeParts_cases fs
    · rw [hparts] at h
      obtain ⟨i, hpart, hfound⟩ := itemParts_place h
      refine ⟨[.field "statements"], .index i, .list items, by rw [hpart, Nat.zero_add]; rfl, ?_, ?_⟩
      · rw [at?, step?_field hfields, lookup_of_member (d := .list items) nofun hitems]
        rfl
      · rw [step?, hfound]
        rfl
    · rw [hparts] at h
      obtain ⟨field, -, rfl⟩ := List.mem_map.mp h
      exact standsIn_field hfields _ _
  · unfold spanParts at h
    split at h
    · cases h
    split at h
    · obtain rfl := List.mem_singleton.mp h
      exact standsIn_field hfields "span" .mapping
    · next inner hinner =>
      have hstep := (step?_field hfields "span").trans (lookup_of_fields hinner)
      obtain ⟨rest, expected, hplace, hstands⟩ : ∃ rest expected, part.place = .field "span" :: rest ∧
          Part.StandsIn ⟨rest, expected, part.found⟩ (member fs "span") := by
        rcases List.mem_append.mp h with h | h
        · exact standsIn_position hinner h
        · exact standsIn_position hinner h
      have hunder := hstands.under part.expected hstep
      rwa [← hplace] at hunder

/-- The way to a part that is no null leads there. A part that is null may be
    missing, and then no way leads to it. -/
theorem at?_of_part (hfields : d.fields = .ok fs) (h : part ∈ parts fs) (hne : part.found ≠ .null) :
    d.at? part.place = some part.found := by
  obtain ⟨before, last, outer, hplace, hat, hfound⟩ := standsIn_parts hfields h
  rw [hplace, at?_append, hat, Option.bind_some, at?]
  cases hstep : outer.step? last with
  | none =>
    rw [hstep] at hfound
    exact absurd hfound.symm hne
  | some below =>
    rw [hstep] at hfound
    exact congrArg some hfound

/-- The way to a node that is no null leads there, however deep it is. Missing
    nodes have places too, to which no way leads. -/
theorem at?_of_nodeAt {sort sort' : NodeSort} {d' : Document} {p : Place} (h : NodeAt sort d p sort' d')
    (hne : d' ≠ .null) : d.at? p = some d' := by
  induction h with
  | root => rfl
  | part _ hfields _ hpart _ ih =>
    rw [at?_append, ih (by rintro rfl; cases hfields)]
    exact at?_of_part hfields hpart hne

/-- The way to a part of a node leads somewhere, except perhaps at its last
    step. -/
theorem at?_dropLast_of_part {sort sort' : NodeSort} {d' : Document} {p : Place}
    (hat : NodeAt sort d p sort' d') (hfields : d'.fields = .ok fs) (hpart : part ∈ parts fs) :
    (d.at? (p ++ part.place).dropLast).isSome := by
  obtain ⟨before, last, outer, hplace, hbefore, -⟩ := standsIn_parts hfields hpart
  rw [hplace, ← List.append_assoc, List.dropLast_concat, at?_append,
    at?_of_nodeAt hat (by rintro rfl; cases hfields), Option.bind_some, hbefore]
  rfl

end Layout
end Document

end WhilePlus
