import WhilePlus.Path

namespace WhilePlus.Path

section Append

/-- There is always a part, be it the empty one. -/
theorem splitChars_ne_nil (cs : List Char) : splitChars cs ≠ [] := by
  fun_cases splitChars <;> simp

private theorem splitChars_append (cs ds : List Char) :
    splitChars (cs ++ '/' :: ds) = splitChars cs ++ splitChars ds := by
  fun_induction splitChars cs with
  | case1 => simp [splitChars]
  | case2 rest ih => simp [splitChars, ih]
  | case3 c rest hslash part parts hparts ih =>
    have hcons : splitChars (rest ++ '/' :: ds) = part :: (parts ++ splitChars ds) := by
      rw [ih, hparts, List.cons_append]
    simp [splitChars, hcons]
  | case4 c rest hslash hparts => exact absurd hparts (splitChars_ne_nil rest)

/-- The parts of two paths with a slash between them are those of both. -/
theorem parts_append (a b : String) : parts (a ++ "/" ++ b) = parts a ++ parts b := by
  simp only [parts, String.toList_append, List.append_assoc]
  exact (congrArg _ (splitChars_append a.toList b.toList)).trans List.map_append

/-- Parts that are followed one after the other may be followed in two goes. -/
theorem cleanParts_append (rooted : Bool) (stack ps qs : List String) :
    cleanParts rooted stack (ps ++ qs) = cleanParts rooted (cleanParts rooted stack ps) qs := by
  fun_induction cleanParts rooted stack ps <;> simp_all [cleanParts]

end Append

/-- A part that leads one level down, whatever it starts from. -/
structure IsName (part : String) : Prop where
  nonempty : part ≠ ""
  notHere : part ≠ "."
  notUp : part ≠ ".."
  noSlash : '/' ∉ part.toList

section Split

variable {name : String} {names : List String}

private theorem splitChars_of_noSlash {cs : List Char} (h : '/' ∉ cs) : splitChars cs = [cs] := by
  induction cs with
  | nil => rfl
  | cons c rest ih =>
    obtain ⟨hc, hrest⟩ := not_or.mp (mt List.mem_cons.mpr h)
    simp [splitChars, ih hrest, Ne.symm hc]

private theorem noSlash_of_mem_splitChars {cs part : List Char} (h : part ∈ splitChars cs) :
    '/' ∉ part := by
  fun_induction splitChars cs generalizing part with
  | case1 => simp_all
  | case2 rest ih =>
    rcases List.mem_cons.mp h with rfl | h
    · simp
    · exact ih h
  | case3 c rest hslash first parts hparts ih =>
    rw [hparts] at ih
    rcases List.mem_cons.mp h with rfl | h
    · have hfirst := ih List.mem_cons_self
      simp only [List.mem_cons, hfirst, or_false]
      exact fun hc => hslash hc.symm
    · exact ih (List.mem_cons_of_mem _ h)
  | case4 c rest hslash hparts => exact absurd hparts (splitChars_ne_nil rest)

private theorem prefix_of_splitChars {cs first : List Char} {others : List (List Char)}
    (h : splitChars cs = first :: others) : first <+: cs := by
  fun_induction splitChars cs generalizing first others with
  | case1 | case2 =>
    obtain ⟨rfl, -⟩ := List.cons.inj h
    exact List.nil_prefix
  | case3 c rest hslash part parts hparts ih =>
    obtain ⟨rfl, -⟩ := List.cons.inj h
    exact (List.prefix_cons_inj c).mpr (ih hparts)
  | case4 c rest hslash hparts => exact absurd hparts (splitChars_ne_nil rest)

/-- A part is a piece of what it was taken from. -/
theorem infix_of_mem_splitChars {cs part : List Char} (h : part ∈ splitChars cs) : part <:+: cs := by
  fun_induction splitChars cs with
  | case1 => simp_all
  | case2 rest ih =>
    rcases List.mem_cons.mp h with rfl | h
    · exact List.nil_infix
    · exact List.infix_cons (ih h)
  | case3 c rest hslash first others hsplit ih =>
    rcases List.mem_cons.mp h with rfl | h
    · exact ((List.prefix_cons_inj c).mpr (prefix_of_splitChars hsplit)).isInfix
    · rw [hsplit] at ih
      exact List.infix_cons (ih (List.mem_cons_of_mem _ h))
  | case4 c rest hslash hsplit => exact absurd hsplit (splitChars_ne_nil rest)

/-- A text without a slash is its only part. -/
theorem parts_of_noSlash (h : '/' ∉ name.toList) : parts name = [name] := by
  simp [parts, splitChars_of_noSlash h]

/-- No part of a path has a slash in it. -/
theorem noSlash_of_mem_parts {path part : String} (h : part ∈ parts path) :
    '/' ∉ part.toList := by
  obtain ⟨cs, hcs, rfl⟩ := List.mem_map.mp h
  rw [String.toList_ofList]
  exact noSlash_of_mem_splitChars hcs

/-- The first of two names or more is followed by a slash and the path of the
    rest. -/
theorem intercalate_cons_cons (a b : String) (rest : List String) :
    "/".intercalate (a :: b :: rest) = a ++ "/" ++ "/".intercalate (b :: rest) := by
  apply String.toList_injective
  simp

/-- Names with slashes between them are taken apart into these names, if they
    have no slashes and are not none at all: no names give the empty text, which
    has one part. -/
theorem parts_intercalate (hne : names ≠ []) (h : ∀ n ∈ names, '/' ∉ n.toList) :
    parts ("/".intercalate names) = names := by
  induction names with
  | nil => exact absurd rfl hne
  | cons first rest ih =>
    have hfirst := parts_of_noSlash (h first List.mem_cons_self)
    cases rest with
    | nil => simpa using hfirst
    | cons second rest =>
      rw [intercalate_cons_cons, parts_append, hfirst,
        ih (List.cons_ne_nil _ _) fun n hn => h n (List.mem_cons_of_mem _ hn)]
      rfl

end Split

section Follow

variable {rooted outer : Bool} {stack before : List String} {name : String} {names : List String}

/-- An empty part and a single dot are passed over. -/
theorem cleanParts_skip {part : String} (h : part = "" ∨ part = ".") (ps : List String) :
    cleanParts rooted stack (part :: ps) = cleanParts rooted stack ps := by
  simp [cleanParts, h]

/-- The first part is followed on its own, and then the rest. -/
theorem cleanParts_cons (rooted : Bool) (stack : List String) (part : String) (ps : List String) :
    cleanParts rooted stack (part :: ps) = cleanParts rooted (cleanParts rooted stack [part]) ps :=
  cleanParts_append rooted stack [part] ps

/-- A part that goes down is put on top of the names so far. It may hold a slash
    here. -/
theorem cleanParts_down (h : name ≠ "" ∧ name ≠ ".") (hup : name ≠ "..") :
    cleanParts rooted stack [name] = name :: stack := by
  simp [cleanParts, h, hup]

/-- A proper name is put on top of the names so far. -/
theorem cleanParts_name (h : IsName name) : cleanParts rooted stack [name] = name :: stack :=
  cleanParts_down ⟨h.nonempty, h.notHere⟩ h.notUp

/-- Two dots take away the last name, if it is not two dots itself. -/
theorem cleanParts_up (h : name ≠ "..") : cleanParts rooted (name :: before) [".."] = before := by
  simp [cleanParts, h]

private theorem length_cleanParts_le (rooted : Bool) (stack ps : List String) :
    (cleanParts rooted stack ps).length ≤ stack.length + ps.length := by
  fun_induction cleanParts rooted stack ps with
  | case1 => simp
  | case3 part rest _ _ ih =>
    have hone : (if rooted then [] else [".."] : List String).length ≤ 1 := by split <;> simp
    simp only [List.length_nil, List.length_cons]
    omega
  | case2 | case4 | case5 | case6 => simp only [List.length_cons] at *; omega

/-- A part that leads one level down from a name is a name itself. Dots would
    leave the length as it is or take the name back. -/
theorem isName_of_length {part : String} (hname : name ≠ "..") (hslash : '/' ∉ part.toList)
    (h : (cleanParts rooted (name :: before) [part]).length = before.length + 2) : IsName part := by
  have hskip : ¬ (part = "" ∨ part = ".") := by
    intro hskip
    rw [cleanParts_skip hskip] at h
    simp [cleanParts] at h
  have hup : part ≠ ".." := by
    rintro rfl
    rw [cleanParts_up hname] at h
    omega
  exact ⟨fun he => hskip (.inl he), fun he => hskip (.inr he), hup, hslash⟩

/-- What holds of two dots, of the names so far and of all parts that lead
    somewhere holds of all names in the end. -/
theorem forall_mem_cleanParts {P : String → Prop} {ps : List String} (hup : P "..")
    (hstack : ∀ n ∈ stack, P n) (hps : ∀ p ∈ ps, p ≠ "" → p ≠ "." → P p) :
    ∀ n ∈ cleanParts rooted stack ps, P n := by
  fun_induction cleanParts rooted stack ps with
  | case1 => exact hstack
  | case2 _ part rest _ ih => exact ih hstack (List.forall_mem_cons.mp hps).2
  | case3 part rest _ _ ih =>
    refine ih ?_ (List.forall_mem_cons.mp hps).2
    split <;> simp [hup]
  | case4 part rest _ _ last before _ ih =>
    exact ih (List.forall_mem_cons.mpr ⟨hup, hstack⟩) (List.forall_mem_cons.mp hps).2
  | case5 part rest _ _ last before _ ih =>
    exact ih (List.forall_mem_cons.mp hstack).2 (List.forall_mem_cons.mp hps).2
  | case6 names part rest hskip _ ih =>
    obtain ⟨hpart, hrest⟩ := List.forall_mem_cons.mp hps
    have hskip : part ≠ "" ∧ part ≠ "." := by simpa using hskip
    exact ih (List.forall_mem_cons.mpr ⟨hpart hskip.1 hskip.2, hstack⟩) hrest

/-- Following the names that some parts come down to is following the parts. A
    path from the root is only followed from the root. -/
theorem cleanParts_reverse_cleanParts {start ps : List String}
    (hroot : rooted = true → outer = true ∧ start = [])
    (hstack : ∀ n ∈ stack, n ≠ "" ∧ n ≠ ".") :
    cleanParts outer start (cleanParts rooted stack ps).reverse =
      cleanParts outer (cleanParts outer start stack.reverse) ps := by
  fun_induction cleanParts rooted stack ps with
  | case1 => rfl
  | case2 stack part rest hskip ih => rw [ih hstack, cleanParts_skip (by simpa using hskip)]
  | case3 part rest _ hup ih =>
    obtain rfl := beq_iff_eq.mp hup
    cases rooted with
    | true =>
      obtain ⟨rfl, rfl⟩ := hroot rfl
      rw [ih (by simp)]
      rfl
    | false => rw [ih (by simp), cleanParts_cons]; rfl
  | case4 part rest _ hup last before hlast ih =>
    obtain rfl := beq_iff_eq.mp hup
    rw [ih (by simpa using hstack), List.reverse_cons, cleanParts_append, ← cleanParts_cons]
  | case5 part rest _ hup last before hlast ih =>
    -- two dots take back the last name, now or when the names are followed
    obtain rfl := beq_iff_eq.mp hup
    obtain ⟨hfirst, hbefore⟩ := List.forall_mem_cons.mp hstack
    have hlast : last ≠ ".." := by simpa using hlast
    rw [ih hbefore, List.reverse_cons, cleanParts_append, cleanParts_down hfirst hlast,
      cleanParts_cons, cleanParts_up hlast]
  | case6 stack part rest hskip hup ih =>
    have hpart : part ≠ "" ∧ part ≠ "." := by simpa using hskip
    rw [ih (List.forall_mem_cons.mpr ⟨hpart, hstack⟩), List.reverse_cons, cleanParts_append,
      ← cleanParts_cons]

/-- The names that a path goes through, with the last one first. -/
def trail (path : String) : List String :=
  cleanParts (isAbsolute path) [] (parts path)

/-- A clean path is made of the names that are left when its parts are followed. -/
theorem clean_eq (path : String) : clean path = ofNames (isAbsolute path) (trail path).reverse :=
  rfl

/-- A name that is left is not empty, not a dot, and has no slash. It may be two
    dots. -/
theorem mem_trail {path : String} (h : name ∈ trail path) :
    (name ≠ "" ∧ name ≠ ".") ∧ '/' ∉ name.toList :=
  forall_mem_cleanParts (P := fun n => (n ≠ "" ∧ n ≠ ".") ∧ '/' ∉ n.toList) (by decide) (by simp)
    (fun _ hp hempty hhere => ⟨⟨hempty, hhere⟩, noSlash_of_mem_parts hp⟩) name h

end Follow

section Spell

variable {rooted : Bool} {name : String} {names : List String}

/-- Names on a path stand behind those above them with a slash between the two,
    if there are some of both. -/
theorem intercalate_append {above : List String} (hne : above ≠ []) (hmore : names ≠ []) :
    "/".intercalate (above ++ names) = "/".intercalate above ++ "/" ++ "/".intercalate names := by
  induction above with
  | nil => exact absurd rfl hne
  | cons first rest ih =>
    cases rest with
    | nil =>
      obtain ⟨name, more, rfl⟩ := List.exists_cons_of_ne_nil hmore
      exact intercalate_cons_cons first name more
    | cons second rest =>
      have hrest := ih (List.cons_ne_nil _ _)
      simp only [List.cons_append] at hrest ⊢
      rw [intercalate_cons_cons, intercalate_cons_cons, hrest]
      simp only [String.append_assoc]

/-- A path with more names goes on after a slash. -/
theorem ofNames_append {above : List String} (hne : above ≠ []) (hmore : names ≠ []) :
    ofNames rooted (above ++ names) = ofNames rooted above ++ "/" ++ "/".intercalate names := by
  cases rooted <;> simp [ofNames, hne, intercalate_append hne hmore, String.append_assoc]

/-- A name at the end of a path stands behind a slash, if it is not the only
    one. -/
theorem ofNames_concat (hne : names ≠ []) :
    ofNames rooted (names ++ [name]) = ofNames rooted names ++ "/" ++ name :=
  ofNames_append hne (List.cons_ne_nil name [])

/-- The parts of a path that is spelled from names are the names, up to parts
    that lead nowhere. -/
theorem parts_ofNames (h : ∀ n ∈ names, '/' ∉ n.toList) :
    parts (ofNames rooted names) =
      (if rooted then [""] else []) ++
        (if names = [] then [if rooted then "" else "."] else names) := by
  have hempty : parts "" = [""] := rfl
  by_cases hne : names = []
  · subst hne
    cases rooted <;> rfl
  · cases rooted with
    | true =>
      have hslash : ofNames true names = "" ++ "/" ++ "/".intercalate names := rfl
      rw [hslash, parts_append, hempty, parts_intercalate hne h]
      simp [hne]
    | false => simp [ofNames, hne, parts_intercalate hne h]

/-- The parts of the path of some names may be followed in place of the names,
    from anywhere. The slash in front of the path makes no difference. -/
theorem cleanParts_parts_ofNames (h : ∀ n ∈ names, '/' ∉ n.toList) {outer : Bool}
    {start : List String} :
    cleanParts outer start (parts (ofNames rooted names)) = cleanParts outer start names := by
  rw [parts_ofNames h]
  by_cases hne : names = []
  · subst hne
    cases rooted <;> simp [cleanParts]
  · cases rooted <;> simp [hne, cleanParts]

private theorem length_parts_ofNames (h : ∀ n ∈ names, '/' ∉ n.toList) :
    (parts (ofNames rooted names)).length = rooted.toNat + max names.length 1 := by
  rw [parts_ofNames h]
  cases names with
  | nil => cases rooted <;> rfl
  | cons first rest =>
    have hmax : max (first :: rest).length 1 = (first :: rest).length :=
      Nat.max_eq_left (Nat.succ_le_succ (Nat.zero_le _))
    rw [hmax, List.length_append]
    cases rooted <;> simp

/-- If two parts after a name are spelled below it, then both are names. It is
    not enough to look at one of them: two dots may take back what the other one
    adds. -/
theorem isName_of_ofNames_eq {top first second : String} {before : List String} (htop : top ≠ "..")
    (hstack : ∀ n ∈ top :: before, '/' ∉ n.toList) (hfirst : '/' ∉ first.toList)
    (hsecond : '/' ∉ second.toList)
    (h : ofNames rooted (cleanParts rooted (cleanParts rooted (top :: before) [first])
        [second]).reverse = ofNames rooted ((top :: before).reverse ++ [first] ++ [second])) :
    IsName first ∧ IsName second := by
  have hstack' : ∀ n ∈ cleanParts rooted (top :: before) [first], '/' ∉ n.toList :=
    forall_mem_cleanParts (by decide) hstack (by simpa using fun _ _ => hfirst)
  have hreached : ∀ n ∈ (cleanParts rooted (cleanParts rooted (top :: before) [first])
      [second]).reverse, '/' ∉ n.toList := fun n hn =>
    forall_mem_cleanParts (P := fun n => '/' ∉ n.toList) (by decide) hstack'
      (by simpa using fun _ _ => hsecond) n (List.mem_reverse.mp hn)
  have hspelled : ∀ n ∈ (top :: before).reverse ++ [first] ++ [second], '/' ∉ n.toList := by
    grind
  -- a part that is no name leaves fewer names than were spelled
  have hlength := congrArg (fun path => (parts path).length) h
  simp only [length_parts_ofNames hreached, length_parts_ofNames hspelled, List.length_reverse,
    List.length_append, List.length_cons, List.length_nil] at hlength
  have hone := length_cleanParts_le rooted (top :: before) [first]
  have htwo := length_cleanParts_le rooted (cleanParts rooted (top :: before) [first]) [second]
  simp only [List.length_cons, List.length_nil] at hone htwo
  have hdown : (cleanParts rooted (top :: before) [first]).length = before.length + 2 := by omega
  have hname := isName_of_length htop hfirst hdown
  rw [cleanParts_name hname] at hlength
  have hdown' : (cleanParts rooted (first :: top :: before) [second]).length =
      (top :: before).length + 2 := by
    rw [List.length_cons]
    omega
  exact ⟨hname, isName_of_length hname.notUp hsecond hdown'⟩

/-- A path from the root is not empty. -/
theorem ne_empty_of_isAbsolute {path : String} (h : isAbsolute path = true) : path ≠ "" := by
  rintro rfl
  cases h

private theorem isAbsolute_append {a : String} (h : a ≠ "") (b : String) :
    isAbsolute (a ++ b) = isAbsolute a := by
  have hne : a.toList ≠ [] := by simpa using h
  obtain ⟨c, cs, hcs⟩ := List.exists_cons_of_ne_nil hne
  simp [isAbsolute, hcs]

private theorem isAbsolute_of_noSlash (h : '/' ∉ name.toList) : isAbsolute name = false := by
  cases hcs : name.toList with
  | nil => simp [isAbsolute, hcs]
  | cons c cs =>
    have hc : c ≠ '/' := fun heq => h (by rw [hcs, heq]; exact List.mem_cons_self)
    simp [isAbsolute, hcs, hc]

/-- The path of some names starts at the root exactly if it is said to, as no
    name is empty or holds a slash. -/
theorem isAbsolute_ofNames (h : ∀ n ∈ names, n ≠ "" ∧ '/' ∉ n.toList) :
    isAbsolute (ofNames rooted names) = rooted := by
  cases rooted with
  | true => simp [isAbsolute, ofNames]
  | false =>
    cases names with
    | nil => rfl
    | cons first rest =>
      obtain ⟨hne, hslash⟩ := h first List.mem_cons_self
      have hfirst := isAbsolute_of_noSlash hslash
      cases rest with
      | nil => simpa [ofNames] using hfirst
      | cons second rest =>
        simp only [ofNames, Bool.false_eq_true, if_false, List.isEmpty_cons]
        rw [intercalate_cons_cons, String.append_assoc, isAbsolute_append hne, hfirst]

/-- The path of some names is never empty: no names at all are written as a dot. -/
theorem ofNames_ne_empty (h : ∀ n ∈ names, n ≠ "") : ofNames rooted names ≠ "" := by
  cases rooted with
  | true => simp [ofNames]
  | false =>
    cases names with
    | nil => decide
    | cons first rest =>
      have hfirst := h first List.mem_cons_self
      cases rest with
      | nil => simpa [ofNames] using hfirst
      | cons second rest => simp [ofNames, hfirst]

end Spell

section Clean

variable {path : String}

/-- The names that are left of a path have no slashes. -/
theorem noSlash_of_mem_trail : ∀ n ∈ (trail path).reverse, '/' ∉ n.toList :=
  fun _ hn => (mem_trail (List.mem_reverse.mp hn)).2

/-- Cleaning a path does not change whether it starts at the root. -/
theorem isAbsolute_clean (path : String) : isAbsolute (clean path) = isAbsolute path :=
  isAbsolute_ofNames fun _ hn =>
    have hname := mem_trail (List.mem_reverse.mp hn)
    ⟨hname.1.1, hname.2⟩

/-- A clean path leads where the path itself leads. If it starts at the root,
    then so must the names that it is followed from. -/
theorem cleanParts_parts_clean {rooted : Bool} {start : List String}
    (h : isAbsolute path = true → rooted = true ∧ start = []) :
    cleanParts rooted start (parts (clean path)) = cleanParts rooted start (parts path) := by
  rw [clean_eq, cleanParts_parts_ofNames noSlash_of_mem_trail]
  exact cleanParts_reverse_cleanParts h (by simp)

/-- Cleaning a path does not change the names that are left of it. -/
theorem trail_clean (path : String) : trail (clean path) = trail path := by
  rw [trail, isAbsolute_clean]
  exact cleanParts_parts_clean fun h => ⟨h, rfl⟩

/-- A clean path is left alone. -/
theorem clean_clean (path : String) : clean (clean path) = clean path := by
  rw [clean_eq (clean path), isAbsolute_clean, trail_clean, clean_eq]

/-- Cleaning a path does not change its names from the root. -/
theorem names_clean (path : String) : names (clean path) = names path :=
  congrArg List.reverse (cleanParts_parts_clean fun _ => ⟨rfl, rfl⟩)

/-- A clean path is never empty. -/
theorem clean_ne_empty (path : String) : clean path ≠ "" :=
  ofNames_ne_empty fun _ hn => (mem_trail (List.mem_reverse.mp hn)).1.1

end Clean

section Join

variable {a b : String}

/-- More behind a path does not change whether it starts at the root. An empty
    path is left out, since the slash would then be the root. -/
theorem isAbsolute_append_slash (h : a ≠ "") (b : String) :
    isAbsolute (a ++ "/" ++ b) = isAbsolute a := by
  rw [String.append_assoc, isAbsolute_append h]

/-- Behind a path that is not empty, further parts are followed from the names
    that are left of it. -/
theorem trail_append_slash (h : a ≠ "") (b : String) :
    trail (a ++ "/" ++ b) = cleanParts (isAbsolute a) (trail a) (parts b) := by
  rw [trail, isAbsolute_append_slash h, parts_append, cleanParts_append]
  rfl

/-- Joining a path to one that is not empty is cleaning the two with a slash
    between them. -/
theorem join_pair (h : a ≠ "") (b : String) : join [a, b] = clean (a ++ "/" ++ b) := by
  have hdrop : [a, b].dropWhile (·.isEmpty) = [a, b] := by simp [h]
  rw [join, hdrop]
  exact congrArg clean (intercalate_cons_cons a b [])

/-- A path that is joined to one that is not empty is not empty. -/
theorem join_ne_empty (h : a ≠ "") (b : String) : join [a, b] ≠ "" :=
  join_pair h b ▸ clean_ne_empty _

/-- A joined path starts at the root exactly if its first part does. -/
theorem isAbsolute_join (h : a ≠ "") (b : String) : isAbsolute (join [a, b]) = isAbsolute a := by
  rw [join_pair h, isAbsolute_clean, isAbsolute_append_slash h]

/-- A path through two others is followed in two stages. -/
theorem trail_join (h : a ≠ "") (b : String) :
    trail (join [a, b]) = cleanParts (isAbsolute a) (trail a) (parts b) := by
  rw [join_pair h, trail_clean, trail_append_slash h]

/-- A joined path is made of the names that are left when the second path is
    followed from the first. -/
theorem join_eq (h : a ≠ "") (b : String) :
    join [a, b] = ofNames (isAbsolute a) (cleanParts (isAbsolute a) (trail a) (parts b)).reverse := by
  rw [join_pair h, clean_eq, isAbsolute_append_slash h, trail_append_slash h]

/-- Joining three paths is joining the third to the first two, if the first is
    not empty. -/
theorem join_join (h : a ≠ "") (b c : String) : join [a, b, c] = join [join [a, b], c] := by
  have hdrop : [a, b, c].dropWhile (·.isEmpty) = [a, b, c] := by simp [h]
  have hspell : "/".intercalate [a, b, c] = a ++ "/" ++ b ++ "/" ++ c := by
    rw [intercalate_cons_cons, intercalate_cons_cons]
    simp only [String.append_assoc]
    rfl
  have hne : a ++ "/" ++ b ≠ "" := by simp [h]
  rw [join_eq (join_ne_empty h b), isAbsolute_join h, trail_join h, join, hdrop]
  show clean ("/".intercalate [a, b, c]) = _
  rw [hspell, clean_eq, isAbsolute_append_slash hne, trail_append_slash hne,
    isAbsolute_append_slash h, trail_append_slash h]

private theorem join_empty (h : b ≠ "") : join ["", b] = clean b := by
  have hdrop : ["", b].dropWhile (·.isEmpty) = [b] := by simp [h]
  rw [join, hdrop]
  rfl

/-- The names on the way to a path that starts in a directory. -/
theorem names_absolute (directory path : String) :
    names (absolute directory path) =
      (cleanParts true (if isAbsolute path then [] else (names directory).reverse)
        (parts path)).reverse := by
  rw [absolute]
  split
  · exact names_clean path
  · by_cases hdirectory : directory = ""
    · subst hdirectory
      by_cases hpath : path = ""
      · subst hpath
        rfl
      · rw [join_empty hpath, names_clean]
        rfl
    · rw [join_pair hdirectory, names_clean, names, parts_append, cleanParts_append, names,
        List.reverse_reverse]

/-- Below a place there is one more name. -/
theorem names_absolute_join {name : String} (h : IsName name) (ha : a ≠ "") (directory : String) :
    names (absolute directory (join [a, name])) = names (absolute directory a) ++ [name] := by
  rw [names_absolute, names_absolute, isAbsolute_join ha, join_pair ha, cleanParts_parts_clean,
    parts_append, cleanParts_append, parts_of_noSlash h.noSlash, cleanParts_name h,
    List.reverse_cons]
  rw [isAbsolute_append_slash ha]
  exact fun habs => ⟨rfl, by rw [if_pos habs]⟩

end Join

end WhilePlus.Path
