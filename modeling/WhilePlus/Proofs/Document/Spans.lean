import WhilePlus.Proofs.Document.Places
import WhilePlus.Proofs.Document.WellFormed

namespace WhilePlus

/-- The statements of a sequence that was made from a list of the given length. -/
def Stmt.split? : Nat → Stmt → Option (List Stmt)
  | 0, _ => some []
  | 1, s => some [s]
  | n + 2, .seq _ first rest => (split? (n + 1) rest).map (first :: ·)
  | _, _ => none

namespace Stmt

private theorem split?_ofList (stmts : List Stmt) : split? stmts.length (ofList stmts) = some stmts := by
  induction stmts with
  | nil => rfl
  | cons s rest ih =>
    cases rest with
    | nil => rfl
    | cons s' rest =>
      exact congrArg (Option.map (s :: ·)) ih

private theorem split?_withSpan (n : Nat) (s : Stmt) (span : Span) :
    split? (n + 2) (s.withSpan span) = split? (n + 2) s := by
  cases s <;> rfl

end Stmt

namespace Node

/-- The span of a node. -/
def span : Node → Span
  | expr e => e.span
  | stmt s => s.span

/-- The node with another span, if one is given. -/
def respan (span : Option Span) : Node → Node
  | expr e => expr (span.elim e e.withSpan)
  | stmt s => stmt (span.elim s s.withSpan)

/-- The children of a node, under the names of the fields that hold them. -/
def children : Node → List (String × Node)
  | expr (.binary _ _ left right) => [("left", expr left), ("right", expr right)]
  | stmt (.assign _ _ value) => [("value", expr value)]
  | stmt (.branch _ condition yes no) =>
    [("condition", expr condition), ("then", stmt yes), ("else", stmt no)]
  | stmt (.loop _ condition body) => [("condition", expr condition), ("body", stmt body)]
  | stmt (.seq _ first second) => [("first", stmt first), ("second", stmt second)]
  | stmt (.print _ _ expression) => [("expression", expr expression)]
  | stmt (.throw _ expression) => [("expression", expr expression)]
  | stmt (.attempt _ body _ handler) => [("body", stmt body), ("handler", stmt handler)]
  | _ => []

private theorem children_respan (n : Node) (span : Option Span) : (n.respan span).children = n.children := by
  cases span with
  | none => cases n <;> rfl
  | some span =>
    cases n with
    | expr e => cases e <;> rfl
    | stmt s => cases s <;> rfl

private theorem span_respan {n : Node} (h : n.WellFormed) (span : Option Span) :
    (n.respan span).span = span.getD n.span := by
  cases span with
  | none => cases n <;> rfl
  | some span =>
    cases n with
    | expr e =>
      cases e with
      | missing => cases h
      | _ => rfl
    | stmt s =>
      cases s with
      | missing => cases h
      | _ => rfl

private theorem respan_respan (n : Node) (inner outer : Option Span) :
    (n.respan inner).respan outer = n.respan (outer.or inner) := by
  cases outer with
  | none => cases n <;> rfl
  | some outer =>
    cases inner with
    | none => cases n <;> rfl
    | some inner =>
      cases n with
      | expr e => cases e <;> rfl
      | stmt s => cases s <;> rfl

end Node

/-- What stands in a tree where a step through its document leads: a node, or
    the statements of a list. -/
inductive Spot where
  | node (n : Node)
  | list (stmts : List Stmt)

namespace Spot

/-- The next spot. How many statements a list has is seen in the document. -/
def step? (d : Document) : Spot → Step → Option Spot
  | node (.stmt s), .field "statements" =>
    match d.step? (.field "statements") with
    | some (.list items) => (s.split? items.length).map list
    | _ => none
  | node n, .field name => (n.children.lookup name).map node
  | list stmts, .index i => stmts[i]?.map fun s => node (.stmt s)
  | _, _ => none

/-- The spot at a place. -/
def at? (d : Document) (spot : Spot) : Place → Option Spot
  | [] => some spot
  | step :: rest => (spot.step? d step).bind fun next => (d.step? step).bind fun below => next.at? below rest

private theorem at?_append {d d' : Document} {spot next : Spot} {p q : Place} (hspot : spot.at? d p = some next)
    (hd : d.at? p = some d') : spot.at? d (p ++ q) = next.at? d' q := by
  induction p generalizing d spot with
  | nil =>
    obtain rfl := Option.some.inj hspot
    obtain rfl := Option.some.inj hd
    rfl
  | cons step rest ih =>
    rw [List.cons_append, at?]
    rw [at?] at hspot
    obtain ⟨spot', hstep, hspot⟩ := Option.bind_eq_some_iff.mp hspot
    obtain ⟨below, hbelow, hspot⟩ := Option.bind_eq_some_iff.mp hspot
    rw [Document.at?, hbelow] at hd
    rw [hstep, hbelow, Option.bind_some, Option.bind_some]
    exact ih hspot hd

end Spot

namespace Document

/-- The node of a tree at a place of its document. -/
def nodeAt? (d : Document) (root : Node) (p : Place) : Option Node :=
  match (Spot.node root).at? d p with
  | some (.node n) => some n
  | _ => none

/-- The span that the document of a node records. -/
def span? (d : Document) : Option Span :=
  match d.fields with
  | .error _ => none
  | .ok fs =>
    match decodeSpan fs with
    | .error _ => none
    | .ok span => span

/-- The only statement of a sequence that is written as a list of one. -/
def soleItem? (d : Document) : Option Document :=
  match d.fields with
  | .error _ => none
  | .ok fs =>
    if nodeType fs = "Sequence" ∨ nodeType fs = "Seq" then
      match member fs "statements" with
      | .list [item] => some item
      | _ => none
    else none

/-- The lists of one around the last of some steps, of which that is the only
    statement, at any depth. The outermost list comes first, and the steps are
    given from the last one on. -/
def wrappersFrom (d : Document) : List Step → List Document
  | .index _ :: .field _ :: outside =>
    match d.at? outside.reverse with
    | some outer => if outer.soleItem?.isSome then wrappersFrom d outside ++ [outer] else []
    | none => []
  | _ => []

/-- The lists of one around what stands at a place, the outermost first: all of
    them are read as the same node as what stands there. -/
def wrappers (d : Document) (p : Place) : List Document :=
  wrappersFrom d p.reverse

section Children

variable {d : Document} {fs : List (String × Document)} {part : Part} {inner : NodeSort}

private theorem span?_of_decodeSpan {span : Option Span} (hfields : d.fields = .ok fs)
    (h : decodeSpan fs = .ok span) : d.span? = span := by
  rw [span?, hfields]
  dsimp only
  rw [h]

private theorem at?_field {name : String} {n child : Node} (hfields : d.fields = .ok fs)
    (hne : member fs name ≠ .null) (hname : name ≠ "statements")
    (hchild : n.children.lookup name = some child) :
    (Spot.node n).at? d [.field name] = some (.node child) := by
  have hstep : (Spot.node n).step? d (.field name) = some (.node child) := by
    rw [Spot.step?.eq_def]
    split
    · next heq => exact absurd (Step.field.inj heq) hname
    · next n' name' hspot hstep =>
      obtain rfl := Spot.node.inj hspot
      obtain rfl := Step.field.inj hstep
      rw [hchild]
      rfl
    · next hstep => cases hstep
    · next h _ => exact absurd rfl (h n name rfl)
  rw [Spot.at?, hstep, step?_field hfields, lookup_of_member hne rfl]
  rfl

private theorem at?_item {items : List Document} {stmts : List Stmt} {s t : Stmt} {i : Nat} {item : Document}
    (hfields : d.fields = .ok fs) (hitems : member fs "statements" = .list items)
    (hitem : items[i]? = some item) (hsplit : s.split? items.length = some stmts)
    (hstmt : stmts[i]? = some t) :
    (Spot.node (.stmt s)).at? d [.field "statements", .index i] = some (.node (.stmt t)) := by
  have hlist : d.step? (.field "statements") = some (.list items) := by
    rw [step?_field hfields, lookup_of_member (d := .list items) nofun hitems]
  have hstep : (Spot.node (.stmt s)).step? d (.field "statements") = some (.list stmts) := by
    rw [Spot.step?, hlist]
    dsimp only
    rw [hsplit]
    rfl
  have hindex : (Spot.list stmts).step? (.list items) (.index i) = some (.node (.stmt t)) := by
    rw [Spot.step?, hstmt]
    rfl
  rw [Spot.at?, hstep, hlist, Option.bind_some, Option.bind_some, Spot.at?, hindex, step?, hitem]
  rfl

/-- The node that the part of a node is read as stands in the tree where the
    part stands in the document. Only the statement of a list of one has the
    span of the node around it. -/
def HasChild (d : Document) (own : Node) (part : Part) (inner : NodeSort) : Prop :=
  ∃ child, inner.decode part.found = .ok child ∧
    ∀ span, (Spot.node (own.respan span)).at? d part.place =
      some (.node (child.respan (if d.soleItem?.isSome then span.or d.span? else none)))

private theorem ne_null_of_decode {sort : NodeSort} {n : Node} (h : sort.decode d = .ok n) : d ≠ .null := by
  rintro rfl
  cases sort with
  | expr =>
    obtain ⟨e, he, -⟩ := map_eq_ok_iff.mp h
    rw [decodeExpr] at he
    cases he
  | stmt =>
    obtain ⟨s, hs, -⟩ := map_eq_ok_iff.mp h
    rw [decodeStmt] at hs
    cases hs

private theorem soleItem?_of_type (hfields : d.fields = .ok fs)
    (h : nodeType fs ≠ "Sequence" ∧ nodeType fs ≠ "Seq") : d.soleItem? = none := by
  rw [soleItem?, hfields]
  exact if_neg (not_or.mpr h)

private theorem soleItem?_of_absent (hfields : d.fields = .ok fs)
    (h : (fs.lookup "statements").isSome = false) : d.soleItem? = none := by
  have hnone : fs.lookup "statements" = none := Option.not_isSome_iff_eq_none.mp (by rw [h]; nofun)
  have hmember : member fs "statements" = .null := by
    rw [member, hnone]
    rfl
  rw [soleItem?, hfields]
  dsimp only
  rw [hmember]
  exact ite_self none

private theorem isSome_soleItem? {items : List Document} (hfields : d.fields = .ok fs)
    (htype : nodeType fs = "Sequence" ∨ nodeType fs = "Seq") (hlist : member fs "statements" = .list items) :
    d.soleItem?.isSome = (items.length == 1) := by
  rw [soleItem?, hfields]
  dsimp only
  rw [if_pos htype, hlist]
  match items with
  | [] | [_] => rfl
  | _ :: _ :: _ => rfl

private theorem hasChild_field {name : String} {bare child : Node} {span : Option Span}
    (hfields : d.fields = .ok fs) (hsole : d.soleItem? = none) (hname : name ≠ "statements")
    (hchild : bare.children.lookup name = some child) (hread : inner.decode (member fs name) = .ok child) :
    HasChild d (bare.respan span) (.field fs name (.node inner)) inner := by
  refine ⟨child, hread, fun outer => ?_⟩
  have hchildren : ((bare.respan span).respan outer).children = bare.children := by
    rw [Node.children_respan, Node.children_respan]
  rw [hsole, Part.field]
  dsimp only
  rw [at?_field hfields (ne_null_of_decode hread) hname ((congrArg _ hchildren).trans hchild)]
  cases child <;> rfl

private theorem hasChild_optional {name : String} {bare : Node} {child : Stmt} {span : Option Span}
    (hfields : d.fields = .ok fs) (hsole : d.soleItem? = none) (hname : name ≠ "statements")
    (hchild : bare.children.lookup name = some (.stmt child)) (hread : OptionalStmt (member fs name) child)
    (hpart : part ∈ optionalParts fs name) (hnode : part.expected = .node inner) :
    HasChild d (bare.respan span) part inner := by
  unfold optionalParts at hpart
  split at hpart
  · cases hpart
  · next hnull =>
    obtain rfl := List.mem_singleton.mp hpart
    obtain rfl := Expected.node.inj hnode
    obtain ⟨h, -⟩ | hread := hread
    · exact absurd h hnull
    · exact hasChild_field hfields hsole hname hchild (map_eq_ok_iff.mpr ⟨child, hread, rfl⟩)

private theorem exists_stmt_of_item {items : List Document} {stmts : List Stmt} {i : Nat} {item : Document}
    (h : List.Forall₂ DenotesStmt items stmts) (hitem : items[i]? = some item) :
    ∃ s, stmts[i]? = some s ∧ item.decodeStmt = .ok s := by
  induction h generalizing i with
  | nil => cases hitem
  | cons hs _ ih =>
    cases i with
    | zero =>
      obtain rfl := Option.some.inj hitem
      exact ⟨_, rfl, hs.decodeStmt_eq⟩
    | succ i => exact ih hitem

/-- A list of one makes no node, so that the spans of the list and around it are
    those of its statement. A longer list is a node for each statement but the
    last. -/
theorem hasChild_item {items : List Document} {stmts : List Stmt} {span : Option Span}
    (hfields : d.fields = .ok fs) (htype : nodeType fs = "Sequence" ∨ nodeType fs = "Seq")
    (hlist : member fs "statements" = .list items) (hitems : decodeStmts 0 items = .ok stmts)
    (hspan : decodeSpan fs = .ok span) (hpart : part ∈ itemParts 0 items)
    (hnode : part.expected = .node inner) :
    HasChild d (Node.respan span (.stmt (.ofList stmts))) part inner := by
  have hdenotes := forall₂_of_decodeStmts (fun _ _ _ => denotesStmt_of_decodeStmt) hitems
  obtain ⟨i, hpart, hfound⟩ := itemParts_place hpart
  obtain ⟨t, hstmt, hread⟩ := exists_stmt_of_item hdenotes hfound
  rw [Nat.zero_add] at hpart
  have hinner : inner = .stmt := by
    rw [hpart] at hnode
    exact (Expected.node.inj hnode).symm
  subst hinner
  refine ⟨.stmt t, map_eq_ok_iff.mpr ⟨t, hread, rfl⟩, fun outer => ?_⟩
  have hplace : part.place = [.field "statements", .index i] := by rw [hpart]
  rw [hplace, Node.respan_respan]
  rw [isSome_soleItem? hfields htype hlist, span?_of_decodeSpan hfields hspan]
  have hlength := hdenotes.length_eq
  cases stmts with
  | nil => cases hstmt
  | cons first rest =>
    cases rest with
    | nil =>
      rw [if_pos (by rw [hlength]; rfl)]
      have hsplit : Stmt.split? items.length ((outer.or span).elim first first.withSpan) =
          some [(outer.or span).elim first first.withSpan] := by
        rw [hlength]
        rfl
      cases i with
      | zero =>
        obtain rfl := Option.some.inj hstmt
        exact at?_item hfields hlist hfound hsplit rfl
      | succ i => cases hstmt
    | cons second rest =>
      rw [if_neg (by rw [hlength]; simp)]
      refine at?_item hfields hlist hfound ?_ hstmt
      rw [hlength]
      have hsplit := Stmt.split?_ofList (first :: second :: rest)
      cases outer.or span with
      | none => exact hsplit
      | some s => exact (Stmt.split?_withSpan rest.length _ s).trans hsplit

private theorem expected_ne_node (h : part ∈ spanParts fs) : part.expected ≠ .node inner := by
  have hposition {fs : List (String × Document)} {name : String} (h : part ∈ positionParts fs name) :
      part.expected ≠ .node inner := by
    unfold positionParts at h
    split at h
    · cases h
    split at h
    · obtain rfl := List.mem_singleton.mp h
      nofun
    · rcases List.mem_pair.mp h with rfl | rfl <;> nofun
  unfold spanParts at h
  split at h
  · cases h
  split at h
  · obtain rfl := List.mem_singleton.mp h
    nofun
  · exact (List.mem_append.mp h).elim hposition hposition

private theorem hasChild_of_exprShape {bare : Expr} {span : Option Span} (hfields : d.fields = .ok fs)
    (hshape : ExprShape fs bare) (hpart : part ∈ typeParts fs) (hnode : part.expected = .node inner) :
    HasChild d (Node.respan span (.expr bare)) part inner := by
  rw [typeParts] at hpart
  cases hshape with
  | var htype | literal htype | int htype | bool htype =>
    rw [htype] at hpart
    obtain rfl := List.mem_singleton.mp hpart
    cases hnode
  | binary htype _ _ hleft hright =>
    have hsole := soleItem?_of_type hfields (by rw [htype]; decide)
    rw [htype] at hpart
    simp only [List.mem_cons, List.not_mem_nil, or_false] at hpart
    obtain rfl | rfl | rfl := hpart
    · cases hnode
    · cases hnode
      exact hasChild_field hfields hsole (by decide) rfl (map_eq_ok_iff.mpr ⟨_, hleft, rfl⟩)
    · cases hnode
      exact hasChild_field hfields hsole (by decide) rfl (map_eq_ok_iff.mpr ⟨_, hright, rfl⟩)

private theorem hasChild_of_stmtShape {bare : Stmt} {span : Option Span} (hfields : d.fields = .ok fs)
    (hshape : StmtShape fs bare) (hspan : decodeSpan fs = .ok span) (hpart : part ∈ typeParts fs)
    (hnode : part.expected = .node inner) : HasChild d (Node.respan span (.stmt bare)) part inner := by
  have hexpr {name : String} {e : Expr} (hsole : d.soleItem? = none) (hname : name ≠ "statements")
      (hchild : (Node.stmt bare).children.lookup name = some (.expr e))
      (hread : (member fs name).decodeExpr = .ok e) :
      HasChild d (Node.respan span (.stmt bare)) (.field fs name (.node .expr)) .expr :=
    hasChild_field hfields hsole hname hchild (map_eq_ok_iff.mpr ⟨e, hread, rfl⟩)
  have hstmt {name : String} {s : Stmt} (hsole : d.soleItem? = none) (hname : name ≠ "statements")
      (hchild : (Node.stmt bare).children.lookup name = some (.stmt s))
      (hread : (member fs name).decodeStmt = .ok s) :
      HasChild d (Node.respan span (.stmt bare)) (.field fs name (.node .stmt)) .stmt :=
    hasChild_field hfields hsole hname hchild (map_eq_ok_iff.mpr ⟨s, hread, rfl⟩)
  rw [typeParts] at hpart
  cases hshape with
  | assign htype _ hvalue =>
    have hsole := soleItem?_of_type hfields (by rw [htype]; decide)
    rw [htype] at hpart
    obtain rfl | rfl := List.mem_pair.mp hpart <;> cases hnode
    exact hexpr hsole (by decide) rfl hvalue
  | branch htype hcondition hyes hno =>
    have hsole := soleItem?_of_type hfields (by rw [htype]; decide)
    rw [htype] at hpart
    obtain hpart | hpart := List.mem_append.mp hpart
    · obtain rfl | rfl := List.mem_pair.mp hpart <;> cases hnode
      · exact hexpr hsole (by decide) rfl hcondition
      · exact hstmt hsole (by decide) rfl hyes
    · exact hasChild_optional hfields hsole (by decide) rfl hno hpart hnode
  | loop htype hcondition hbody =>
    have hsole := soleItem?_of_type hfields (by rw [htype]; decide)
    rw [htype] at hpart
    obtain rfl | rfl := List.mem_pair.mp hpart <;> cases hnode
    · exact hexpr hsole (by decide) rfl hcondition
    · exact hstmt hsole (by decide) rfl hbody
  | @list items stmts htype hpresent hlist hitems =>
    have hparts : part ∈ itemParts 0 items := by
      rw [← listParts_list hlist]
      rcases htype with htype | htype <;> rwa [htype, if_pos hpresent] at hpart
    exact hasChild_item hfields htype hlist hitems hspan hparts hnode
  | seq htype habsent hfirst hsecond =>
    have hsole := soleItem?_of_absent hfields habsent
    have hparts : part ∈ [Part.field fs "first" (.node .stmt), .field fs "second" (.node .stmt)] := by
      rcases htype with htype | htype <;> rwa [htype, if_neg (by rw [habsent]; decide)] at hpart
    obtain rfl | rfl := List.mem_pair.mp hparts <;> cases hnode
    · exact hstmt hsole (by decide) rfl hfirst
    · exact hstmt hsole (by decide) rfl hsecond
  | print htype _ hexpression =>
    have hsole := soleItem?_of_type hfields (by rw [htype]; decide)
    rw [htype] at hpart
    obtain rfl | rfl := List.mem_pair.mp hpart <;> cases hnode
    exact hexpr hsole (by decide) rfl hexpression
  | throw htype hexpression =>
    have hsole := soleItem?_of_type hfields (by rw [htype]; decide)
    rw [htype] at hpart
    obtain rfl := List.mem_singleton.mp hpart
    cases hnode
    exact hexpr hsole (by decide) rfl hexpression
  | attempt htype hbody _ hhandler =>
    have hsole := soleItem?_of_type hfields (by rw [htype]; decide)
    rw [htype] at hpart
    obtain hpart | hpart := List.mem_append.mp hpart
    · obtain rfl | rfl := List.mem_pair.mp hpart <;> cases hnode
      exact hstmt hsole (by decide) rfl hbody
    · exact hasChild_optional hfields hsole (by decide) rfl hhandler hpart hnode
  | skip htype =>
    rw [htype] at hpart
    cases hpart

private theorem hasChild_of_decode {sort : NodeSort} {own : Node} (h : sort.decode d = .ok own)
    (hfields : d.fields = .ok fs) (hpart : part ∈ parts fs) (hnode : part.expected = .node inner) :
    HasChild d own part inner := by
  have hpart : part ∈ typeParts fs :=
    (List.mem_append.mp hpart).resolve_right fun h => expected_ne_node h hnode
  cases sort with
  | expr =>
    obtain ⟨e, he, rfl⟩ := map_eq_ok_iff.mp h
    obtain ⟨fs', bare, span, hfields', hshape, -, rfl⟩ := decodeExpr_shape he
    obtain rfl := Except.ok.inj (hfields.symm.trans hfields')
    exact hasChild_of_exprShape hfields hshape hpart hnode
  | stmt =>
    obtain ⟨s, hs, rfl⟩ := map_eq_ok_iff.mp h
    obtain ⟨fs', bare, span, hfields', hshape, hspan, rfl⟩ := decodeStmt_shape hs
    obtain rfl := Except.ok.inj (hfields.symm.trans hfields')
    exact hasChild_of_stmtShape hfields hshape hspan hpart hnode

end Children

section Wrappers

variable {d d' item : Document} {fs : List (String × Document)} {part : Part} {p : Place}

private theorem soleItem?_eq_some_iff (hfields : d.fields = .ok fs) : d.soleItem? = some item ↔
    (nodeType fs = "Sequence" ∨ nodeType fs = "Seq") ∧ member fs "statements" = .list [item] := by
  rw [soleItem?, hfields]
  dsimp only
  constructor
  · intro h
    split at h
    · next htype =>
      refine ⟨htype, ?_⟩
      split at h
      · next hlist => rw [hlist, Option.some.inj h]
      · cases h
    · cases h
  · rintro ⟨htype, hlist⟩
    rw [if_pos htype, hlist]

private theorem typeParts_of_soleItem (hfields : d.fields = .ok fs) (h : d.soleItem? = some item) :
    typeParts fs = itemParts 0 [item] := by
  obtain ⟨htype, hlist⟩ := (soleItem?_eq_some_iff hfields).mp h
  have hpresent : (fs.lookup "statements").isSome := by
    rw [lookup_of_member (d := .list [item]) nofun hlist]
    rfl
  rw [typeParts]
  rcases htype with htype | htype <;>
    · rw [htype]
      exact (if_pos hpresent).trans (listParts_list hlist)

/-- What stands in a list of one has the list around it, and what the list has
    around it; what stands anywhere else in a node has no list around it. -/
theorem wrappers_append (hat : d.at? p = some d') (hfields : d'.fields = .ok fs)
    (hpart : part ∈ typeParts fs) :
    wrappers d (p ++ part.place) = if d'.soleItem?.isSome then wrappers d p ++ [d'] else [] := by
  have hitem {i : Nat} (hplace : part.place = [.field "statements", .index i]) :
      wrappers d (p ++ part.place) = if d'.soleItem?.isSome then wrappers d p ++ [d'] else [] := by
    rw [hplace, wrappers, List.reverse_append]
    change wrappersFrom d (.index i :: .field "statements" :: p.reverse) = _
    rw [wrappersFrom, List.reverse_reverse, hat, wrappers]
  obtain ⟨items, -, hparts⟩ | ⟨fields, -, hparts⟩ := typeParts_cases fs
  · rw [hparts] at hpart
    obtain ⟨i, hpart, -⟩ := itemParts_place hpart
    exact hitem (by rw [hpart])
  · cases hsole : d'.soleItem? with
    | some item =>
      rw [typeParts_of_soleItem hfields hsole] at hpart
      obtain ⟨i, hpart, -⟩ := itemParts_place hpart
      rw [← hsole]
      exact hitem (by rw [hpart])
    | none =>
      rw [hparts] at hpart
      obtain ⟨field, -, rfl⟩ := List.mem_map.mp hpart
      rw [wrappers, List.reverse_append]
      rfl

end Wrappers

/-- The span of a node that is read alone: the one that its document records,
    and otherwise none, except that the statement of a list of one keeps its
    span. -/
inductive SpanAlone : Document → Span → Prop where
  | recorded {d : Document} {span : Span} (h : d.span? = some span) : SpanAlone d span
  | unset {d : Document} (h : d.span? = none) (hsole : d.soleItem? = none) : SpanAlone d .zero
  | item {d item : Document} {span : Span} (h : d.span? = none) (hsole : d.soleItem? = some item)
      (hitem : SpanAlone item span) : SpanAlone d span

section Alone

variable {sort : NodeSort} {d : Document} {own : Node}

private theorem wellFormed_of_decode (h : sort.decode d = .ok own) : own.WellFormed := by
  cases sort with
  | expr =>
    obtain ⟨e, he, rfl⟩ := map_eq_ok_iff.mp h
    exact decodeExpr_wellFormed he
  | stmt =>
    obtain ⟨s, hs, rfl⟩ := map_eq_ok_iff.mp h
    exact decodeStmt_wellFormed hs

private theorem ExprShape.span_eq_zero {fs : List (String × Document)} {bare : Expr} (h : ExprShape fs bare) :
    bare.span = .zero := by
  cases h with
  | @literal v => cases v <;> rfl
  | _ => rfl

private theorem ExprShape.type_ne {fs : List (String × Document)} {bare : Expr} (h : ExprShape fs bare) :
    nodeType fs ≠ "Sequence" ∧ nodeType fs ≠ "Seq" := by
  cases h with
  | var htype | literal htype | int htype | bool htype | binary htype => rw [htype]; decide

/-- A statement without its span has none, unless it is the statement of a list
    of one. -/
theorem StmtShape.span_cases {fs : List (String × Document)} {bare : Stmt} (h : StmtShape fs bare)
    (hfields : d.fields = .ok fs) :
    d.soleItem? = none ∧ bare.span = .zero ∨
      ∃ item, d.soleItem? = some item ∧ item.decodeStmt = .ok bare := by
  have hother (htype : nodeType fs ≠ "Sequence" ∧ nodeType fs ≠ "Seq") : d.soleItem? = none :=
    soleItem?_of_type hfields htype
  cases h with
  | @list items stmts htype _ hlist hitems =>
    have hdenotes := forall₂_of_decodeStmts (fun _ _ _ => denotesStmt_of_decodeStmt) hitems
    have hnone (hlength : items.length ≠ 1) : d.soleItem? = none := by
      rw [← Option.not_isSome_iff_eq_none, isSome_soleItem? hfields htype hlist, beq_iff_eq]
      exact hlength
    cases hdenotes with
    | nil => exact .inl ⟨hnone (by decide), rfl⟩
    | cons hfirst hrest =>
      cases hrest with
      | nil => exact .inr ⟨_, (soleItem?_eq_some_iff hfields).mpr ⟨htype, hlist⟩, hfirst.decodeStmt_eq⟩
      | cons => exact .inl ⟨hnone (by simp), rfl⟩
  | seq _ habsent => exact .inl ⟨soleItem?_of_absent hfields habsent, rfl⟩
  | assign htype | branch htype | loop htype | print htype | throw htype | attempt htype | skip htype =>
    exact .inl ⟨hother (by rw [htype]; decide), rfl⟩

private theorem sizeOf_soleItem_lt {item : Document} (h : d.soleItem? = some item) : sizeOf item < sizeOf d := by
  cases hfields : d.fields with
  | error fault =>
    rw [soleItem?, hfields] at h
    cases h
  | ok fs =>
    obtain ⟨-, hlist⟩ := (soleItem?_eq_some_iff hfields).mp h
    have hlt := sizeOf_member_lt hfields "statements"
    rw [hlist, Document.list.sizeOf_spec, List.cons.sizeOf_spec] at hlt
    omega

/-- The recursion is on the document: the statement of a list is smaller than
    the list. -/
theorem spanAlone_of_decodeStmt {d : Document} {s : Stmt} (h : d.decodeStmt = .ok s) :
    SpanAlone d s.span := by
  have hwhole := decodeStmt_wellFormed h
  obtain ⟨fs, bare, span, hfields, hshape, hspan, rfl⟩ := decodeStmt_shape h
  have hrecorded := span?_of_decodeSpan hfields hspan
  cases span with
  | some span =>
    have hbare : (Node.stmt bare).WellFormed := Stmt.wellFormed_withSpan.mp hwhole
    have hown : (bare.withSpan span).span = span := Node.span_respan hbare (some span)
    rw [Option.elim_some, hown]
    exact .recorded hrecorded
  | none =>
    obtain ⟨hsole, hzero⟩ | ⟨item, hsole, hitem⟩ := hshape.span_cases hfields
    · rw [Option.elim_none, hzero]
      exact .unset hrecorded hsole
    · exact .item hrecorded hsole (spanAlone_of_decodeStmt hitem)
termination_by sizeOf d
decreasing_by exact sizeOf_soleItem_lt hsole

private theorem spanAlone_of_decode (h : sort.decode d = .ok own) : SpanAlone d own.span := by
  cases sort with
  | stmt =>
    obtain ⟨s, hs, rfl⟩ := map_eq_ok_iff.mp h
    exact spanAlone_of_decodeStmt hs
  | expr =>
    have hwhole := wellFormed_of_decode h
    obtain ⟨e, he, rfl⟩ := map_eq_ok_iff.mp h
    obtain ⟨fs, bare, span, hfields, hshape, hspan, rfl⟩ := decodeExpr_shape he
    have hrecorded := span?_of_decodeSpan hfields hspan
    cases span with
    | some span =>
      have hbare : (Node.expr bare).WellFormed := Expr.wellFormed_withSpan.mp hwhole
      have hown : (bare.withSpan span).span = span := Node.span_respan hbare (some span)
      rw [Option.elim_some, Node.span, hown]
      exact .recorded hrecorded
    | none =>
      rw [Option.elim_none, Node.span, hshape.span_eq_zero]
      exact .unset hrecorded (soleItem?_of_type hfields hshape.type_ne)

end Alone

section Tree

variable {sort sort' : NodeSort} {d sub : Document} {p : Place} {root own : Node}

/-- The node that stands in the tree for a node of the document is the one that
    its own document is read as, with the span of the outermost list of one
    around it that records one. -/
theorem at?_of_decode (h : sort.decode d = .ok root) (hat : NodeAt sort d p sort' sub) :
    ∃ own, sort'.decode sub = .ok own ∧
      (Spot.node root).at? d p = some (.node (own.respan ((wrappers d p).findSome? span?))) := by
  induction hat with
  | root => exact ⟨root, h, by cases root <;> rfl⟩
  | @part outer inner d' fs part p habove hfields _ hpart hnode ih =>
    obtain ⟨own, hread, hspot⟩ := ih
    obtain ⟨child, hchild, hbelow⟩ := hasChild_of_decode hread hfields hpart hnode
    have htype : part ∈ typeParts fs :=
      (List.mem_append.mp hpart).resolve_right fun h => expected_ne_node h hnode
    have hplace := at?_of_nodeAt habove (ne_null_of_decode hread)
    refine ⟨child, hchild, ?_⟩
    rw [Spot.at?_append hspot hplace, hbelow, wrappers_append hplace hfields htype]
    split
    · rw [List.findSome?_append, List.findSome?_cons, List.findSome?_nil]
      cases d'.span? <;> rfl
    · rfl

/-- The node that is read from a document within an accepted one stands in the
    tree at the same place. Its span is that of the outermost list of one around
    it that records one, if any, and otherwise the one that its own document
    records. -/
theorem span_of_decode (h : sort.decode d = .ok root) (hat : NodeAt sort d p sort' sub) :
    ∃ n own, d.nodeAt? root p = some n ∧ sort'.decode sub = .ok own ∧ (∃ span, n = own.respan span) ∧
      n.span = ((wrappers d p).findSome? span?).getD own.span ∧ SpanAlone sub own.span := by
  obtain ⟨own, hread, hspot⟩ := at?_of_decode h hat
  refine ⟨own.respan ((wrappers d p).findSome? span?), own, ?_, hread, ⟨_, rfl⟩, ?_,
    spanAlone_of_decode hread⟩
  · rw [nodeAt?, hspot]
  · exact Node.span_respan (wellFormed_of_decode hread) _

end Tree

section Lists

/-- A position as a document. -/
def positionDocument (line column : Int64) : Document :=
  .record [("line", .int line), ("column", .int column)]

/-- A statement on the third line. -/
def skipOnThirdLine : Document :=
  .record [("type", .text "Skip"),
    ("span", .record [("start", positionDocument 3 1), ("end", positionDocument 3 5)])]

/-- The fields of a sequence of nine lines that is written as a list of
    statements. -/
def nineLineFields (items : List Document) : List (String × Document) :=
  [("type", .text "Sequence"), ("statements", .list items),
    ("span", .record [("start", positionDocument 1 1), ("end", positionDocument 9 9)])]

/-- A sequence of nine lines that is written as a list of statements. -/
def nineLines (items : List Document) : Document :=
  .record (nineLineFields items)

private theorem nodeAt_nineLines (item : Document) (rest : List Document) :
    NodeAt .stmt (nineLines (item :: rest)) [.field "statements", .index 0] .stmt item := by
  have htype : nodeType (nineLineFields (item :: rest)) = "Sequence" := rfl
  have hparts : typeParts (nineLineFields (item :: rest)) = itemParts 0 (item :: rest) := rfl
  have hpart : ⟨[.field "statements", .index 0], .node .stmt, item⟩ ∈
      parts (nineLineFields (item :: rest)) := by
    rw [parts, hparts]
    exact List.mem_append_left _ List.mem_cons_self
  exact .part .root rfl (by rw [htype]; decide) hpart rfl

/-- The only statement of a list loses its span to the list. -/
theorem span_of_sole_statement :
    (nineLines [skipOnThirdLine]).decodeStmt = .ok (.skip ⟨⟨1, 1⟩, ⟨9, 9⟩⟩) ∧
      NodeAt .stmt (nineLines [skipOnThirdLine]) [.field "statements", .index 0] .stmt skipOnThirdLine ∧
      skipOnThirdLine.span? = some ⟨⟨3, 1⟩, ⟨3, 5⟩⟩ ∧
      (nineLines [skipOnThirdLine]).nodeAt? (.stmt (.skip ⟨⟨1, 1⟩, ⟨9, 9⟩⟩))
        [.field "statements", .index 0] = some (.stmt (.skip ⟨⟨1, 1⟩, ⟨9, 9⟩⟩)) :=
  ⟨by decide +kernel, nodeAt_nineLines _ _, rfl, rfl⟩

/-- The first of two statements keeps its span. -/
theorem span_of_first_statement :
    ∃ n own, (nineLines [skipOnThirdLine, nineLines [skipOnThirdLine]]).nodeAt?
        (.stmt (.seq ⟨⟨1, 1⟩, ⟨9, 9⟩⟩ (.skip ⟨⟨3, 1⟩, ⟨3, 5⟩⟩) (.skip ⟨⟨1, 1⟩, ⟨9, 9⟩⟩)))
        [.field "statements", .index 0] = some n ∧
      NodeSort.stmt.decode skipOnThirdLine = .ok own ∧ (∃ span, n = own.respan span) ∧
      n.span = ((wrappers (nineLines [skipOnThirdLine, nineLines [skipOnThirdLine]])
        [.field "statements", .index 0]).findSome? span?).getD own.span ∧
      SpanAlone skipOnThirdLine own.span :=
  span_of_decode (by decide +kernel) (nodeAt_nineLines _ _)

end Lists

end Document

end WhilePlus
