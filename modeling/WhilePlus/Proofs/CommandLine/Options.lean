import Mathlib.Data.List.TakeWhile
import WhilePlus.CommandLine.Options
import WhilePlus.Proofs.Except
import WhilePlus.Proofs.Number.Numeral

namespace WhilePlus.Options

section Values

variable {value : String} {options options' : Options} {key : Key}

/-- The texts that name a level. -/
def levelNames : List (String × Level) :=
  [("debug", .debug), ("info", .info), ("warn", .warn), ("warning", .warn), ("error", .error)]

/-- A text names a level, in any letter case and with blanks around the name. -/
def IsLevel (value : String) (level : Level) : Prop :=
  (Text.lower (Text.trim value), level) ∈ levelNames

/-- A text is the numeral of a number of steps, with blanks around it. The
    number has to fit into a word. -/
def IsStepCount (value : String) (n : Nat) : Prop :=
  Number.IsNumeral (Text.trim value).toList n ∧ n < Number.signedLimit

private theorem parseLevel_eq_ok_iff {level : Level} : parseLevel value = .ok level ↔ IsLevel value level := by
  unfold parseLevel IsLevel
  generalize Text.lower (Text.trim value) = name
  split <;> simp_all [levelNames] <;> exact eq_comm

private theorem parseSteps_eq_ok_iff {n : Nat} : parseSteps value = .ok n ↔ IsStepCount value n := by
  have hlimit : Number.signedLimit = 2 ^ 63 := rfl
  unfold parseSteps IsStepCount
  constructor
  · intro h
    split at h
    · next count hread =>
      split at h
      · cases h
      · next hnonneg =>
        rw [Int64.lt_iff_toInt_lt] at hnonneg
        have hzero : (0 : Int64).toInt = 0 := rfl
        have hcount : count.toInt = n := by
          have hn := Except.ok.inj h
          omega
        have hfits := count.toInt_lt
        refine ⟨?_, by omega⟩
        rw [← hcount]
        exact Number.parseInt_eq_ok_iff.mp hread
    · cases h
  · rintro ⟨hnumeral, hfits⟩
    have hcount : (Int64.ofInt n).toInt = n := Int64.toInt_ofInt_of_le (by omega) (by omega)
    have hread : Number.parseInt (Text.trim value) = .ok (Int64.ofInt n) := by
      rw [Number.parseInt_eq_ok_iff, hcount]
      exact hnumeral
    have hnonneg : ¬ Int64.ofInt n < 0 := by
      rw [Int64.lt_iff_toInt_lt, hcount]
      exact Int.not_lt.mpr (Int.natCast_nonneg n)
    simp [hread, hnonneg, hcount]

/-- A value that may be given for an option. -/
def Key.Accepts (value : String) : Key → Prop
  | .level => ∃ level, IsLevel value level
  | .maxSteps => ∃ n, IsStepCount value n

/-- The options with a value given for one of them. -/
inductive Sets (options : Options) (value : String) : Key → Options → Prop where
  | level {level : Level} (h : IsLevel value level) : Sets options value .level { options with level }
  | maxSteps {n : Nat} (h : IsStepCount value n) :
      Sets options value .maxSteps { options with maxSteps := some n }

private theorem set_eq_ok_iff : options.set key value = .ok options' ↔ Sets options value key options' := by
  cases key with
  | level =>
    rw [set, bind_eq_ok_iff]
    constructor
    · rintro ⟨level, hlevel, ⟨⟩⟩
      exact .level (parseLevel_eq_ok_iff.mp hlevel)
    · rintro ⟨h⟩
      exact ⟨_, parseLevel_eq_ok_iff.mpr h, rfl⟩
  | maxSteps =>
    rw [set, bind_eq_ok_iff]
    constructor
    · rintro ⟨n, hsteps, ⟨⟩⟩
      exact .maxSteps (parseSteps_eq_ok_iff.mp hsteps)
    · rintro ⟨⟩
      next h => exact ⟨_, parseSteps_eq_ok_iff.mpr h, rfl⟩

private theorem exists_set_iff (options : Options) (key : Key) (value : String) :
    (∃ options', options.set key value = .ok options') ↔ key.Accepts value := by
  constructor
  · rintro ⟨options', h⟩
    cases set_eq_ok_iff.mp h with
    | level hlevel => exact ⟨_, hlevel⟩
    | maxSteps hcount => exact ⟨_, hcount⟩
  · intro h
    cases key with
    | level =>
      obtain ⟨level, h⟩ := h
      exact ⟨_, set_eq_ok_iff.mpr (.level h)⟩
    | maxSteps =>
      obtain ⟨n, h⟩ := h
      exact ⟨_, set_eq_ok_iff.mpr (.maxSteps h)⟩

end Values

section Arguments

variable {argument name : String} {value : Option String} {kind : Argument}

/-- The argument that gives an option, with its value after an equals sign if
    there is one. -/
def spell (name : String) (value : Option String) : String :=
  match value with
  | none => name
  | some value => name ++ "=" ++ value

/-- The names of the options. -/
def optionNames : List String := ["--log-level", "--max-steps", "--trace"]

/-- An argument that is neither an option nor the end of the options. -/
structure IsPlain (argument : String) : Prop where
  notEnd : argument ≠ "--"
  notOption : ∀ name ∈ optionNames, ∀ value, argument ≠ spell name value

private theorem splitValue_spell (h : '=' ∉ name.toList) (value : Option String) :
    splitValue (spell name value) = (name, value) := by
  have hname : ∀ c ∈ name.toList, (c != '=') = true := by
    intro c hc
    rw [bne_iff_ne]
    rintro rfl
    exact h hc
  cases value with
  | none =>
    have hdrop : name.toList.dropWhile (· != '=') = [] := List.dropWhile_eq_nil_iff.mpr hname
    simp [splitValue, spell, hdrop, List.takeWhile_eq_self_iff.mpr hname]
  | some value =>
    have htext : (spell name (some value)).toList = name.toList ++ '=' :: value.toList := by
      simp [spell]
    simp [splitValue, htext, List.takeWhile_append_of_pos hname, List.dropWhile_append_of_pos hname]

private theorem spell_splitValue (argument : String) :
    spell (splitValue argument).1 (splitValue argument).2 = argument := by
  apply String.toList_injective
  have hparts := List.takeWhile_append_dropWhile (p := (· != '=')) (l := argument.toList)
  unfold splitValue
  dsimp only
  split
  · next c rest hdrop =>
    have hc : c = '=' := by
      have hhead := List.head?_dropWhile_not (· != '=') argument.toList
      rw [hdrop] at hhead
      simpa using hhead
    rw [hdrop, hc] at hparts
    simpa [spell] using hparts
  · next hdrop =>
    rw [hdrop, List.append_nil] at hparts
    simpa [spell] using hparts

/-- How an argument is read on its own. -/
inductive Reads : String → Argument → Prop where
  | endOfOptions : Reads "--" .endOfOptions
  | trace (value : Option String) : Reads (spell "--trace" value) .trace
  | setting (key : Key) (value : Option String) : Reads (spell key.name value) (.setting key value)
  | plain {argument : String} (h : IsPlain argument) : Reads argument .plain

private theorem noEquals_of_mem_optionNames (h : name ∈ optionNames) : '=' ∉ name.toList := by
  revert name
  decide

private theorem Key.name_mem_optionNames (key : Key) : key.name ∈ optionNames := by
  cases key <;> simp [Key.name, optionNames]

private theorem trace_mem_optionNames : "--trace" ∈ optionNames := by
  simp [optionNames]

private theorem spell_ne_end (h : name ∈ optionNames) (value : Option String) : spell name value ≠ "--" := by
  intro heq
  have hparts := splitValue_spell (noEquals_of_mem_optionNames h) value
  rw [heq] at hparts
  have hname : "--" = name := congrArg Prod.fst hparts
  simp [← hname, optionNames] at h

private theorem splitValue_trace (value : Option String) : splitValue (spell "--trace" value) = ("--trace", value) :=
  splitValue_spell (noEquals_of_mem_optionNames trace_mem_optionNames) value

private theorem splitValue_setting (key : Key) (value : Option String) :
    splitValue (spell key.name value) = (key.name, value) :=
  splitValue_spell (noEquals_of_mem_optionNames key.name_mem_optionNames) value

private theorem reads_classify (argument : String) : Reads argument (classify argument) := by
  have hspell := spell_splitValue argument
  unfold classify
  split
  · next hend =>
    rw [hend]
    exact .endOfOptions
  next hnotEnd =>
    split
    · next value hparts =>
      rw [hparts] at hspell
      rw [← hspell]
      exact .setting .level value
    · next value hparts =>
      rw [hparts] at hspell
      rw [← hspell]
      exact .setting .maxSteps value
    · next value hparts =>
      rw [hparts] at hspell
      rw [← hspell]
      exact .trace value
    · next hlevel hmaxSteps htrace =>
      refine .plain ⟨hnotEnd, ?_⟩
      rintro name hname value rfl
      have hparts := splitValue_spell (noEquals_of_mem_optionNames hname) value
      simp only [optionNames, List.mem_cons, List.not_mem_nil, or_false] at hname
      obtain rfl | rfl | rfl := hname
      · exact hlevel value hparts
      · exact hmaxSteps value hparts
      · exact htrace value hparts

private theorem Reads.classify_eq (h : Reads argument kind) : classify argument = kind := by
  cases h with
  | endOfOptions => rfl
  | trace value =>
    rw [classify, if_neg (spell_ne_end trace_mem_optionNames value), splitValue_trace]
    rfl
  | setting key value =>
    rw [classify, if_neg (spell_ne_end key.name_mem_optionNames value), splitValue_setting]
    cases key <;> rfl
  | plain hplain =>
    have hreads := reads_classify argument
    generalize classify argument = kind at hreads
    cases hreads with
    | endOfOptions => exact absurd rfl hplain.notEnd
    | trace value => exact absurd rfl (hplain.notOption "--trace" trace_mem_optionNames value)
    | setting key value => exact absurd rfl (hplain.notOption key.name key.name_mem_optionNames value)
    | plain _ => rfl

private theorem reads_iff : Reads argument kind ↔ classify argument = kind :=
  ⟨Reads.classify_eq, fun h => h ▸ reads_classify argument⟩

/-- The option for the trace is recognized with any value and without one. -/
@[simp]
theorem classify_trace (value : Option String) : classify (spell "--trace" value) = .trace :=
  (Reads.trace value).classify_eq

/-- An option that takes a value is recognized by its name alone, whatever the
    value. -/
@[simp]
theorem classify_setting (key : Key) (value : Option String) :
    classify (spell key.name value) = .setting key value :=
  (Reads.setting key value).classify_eq

/-- Two hyphens alone end the options. -/
@[simp]
theorem classify_end : classify "--" = .endOfOptions :=
  Reads.endOfOptions.classify_eq

private theorem isPlain_iff : IsPlain argument ↔ classify argument = .plain := by
  rw [← reads_iff]
  refine ⟨.plain, fun h => ?_⟩
  cases h with
  | plain h => exact h

instance (argument : String) : Decidable (IsPlain argument) :=
  decidable_of_iff (classify argument = .plain) isPlain_iff.symm

end Arguments

/-- What stands among the arguments before their end. -/
inductive Item where
  | plain (argument : String) (h : IsPlain argument)
  /-- The option without a meaningful value; what follows an equals sign does
      not matter. -/
  | trace (value : Option String)
  /-- An option with its value after an equals sign. -/
  | joined (key : Key) (value : String)
  /-- An option with its value in the next argument, whatever that looks like.
      -/
  | apart (key : Key) (value : String)

namespace Item

/-- The arguments that an item is made of. -/
def arguments : Item → List String
  | plain argument _ => [argument]
  | trace value => [spell "--trace" value]
  | joined key value => [spell key.name (some value)]
  | apart key value => [spell key.name none, value]

/-- The argument that an item leaves, if it is none of the options. -/
def plain? : Item → Option String
  | plain argument _ => some argument
  | _ => none

/-- The value that an item gives for an option. -/
def value? (key : Key) : Item → Option String
  | joined other value | apart other value => if other = key then some value else none
  | _ => none

/-- An option. -/
def isOption : Item → Bool
  | plain _ _ => false
  | _ => true

/-- The options after an item. -/
def apply (options : Options) : Item → Except OptionError Options
  | plain _ _ => .ok options
  | trace _ => .ok { options with trace := true }
  | joined key value | apart key value => options.set key value

end Item

/-- How the arguments end. -/
inductive Ending where
  | complete
  /-- Two dashes, with arguments after them that are not looked at. -/
  | tail (arguments : List String)
  /-- An option whose value is missing. -/
  | lacking (key : Key)

namespace Ending

/-- The arguments of an end. -/
def arguments : Ending → List String
  | complete => []
  | tail rest => "--" :: rest
  | lacking key => [spell key.name none]

/-- The arguments that an end leaves. -/
def rest : Ending → List String
  | tail rest => rest
  | _ => []

/-- What is read from an end. -/
def finish (options : Options) (plain : List String) : Ending → Except OptionError (Options × List String)
  | complete => .ok (options, plain)
  | tail rest => .ok (options, plain ++ rest)
  | lacking key => .error (.missingValue key.name)

end Ending

/-- The arguments of a program: items up to an end. -/
structure Line where
  items : List Item
  ending : Ending

namespace Line

variable {line other : Line} {options options' : Options} {done items : List Item}

/-- The arguments of a line. -/
def arguments (line : Line) : List String :=
  line.items.flatMap Item.arguments ++ line.ending.arguments

/-- The plain arguments of a line. -/
def plain (line : Line) : List String :=
  line.items.filterMap Item.plain?

/-- The options of a line. -/
def settings (line : Line) : List Item :=
  line.items.filter Item.isOption

/-- A line with one more item in front. -/
def cons (item : Item) (line : Line) : Line :=
  { line with items := item :: line.items }

section Reading

/-- Reads arguments as a line. -/
def read : List String → Line
  | [] => ⟨[], .complete⟩
  | argument :: rest =>
    if h : IsPlain argument then (read rest).cons (.plain argument h)
    else
      match classify argument with
      | .trace => (read rest).cons (.trace (splitValue argument).2)
      | .setting key (some value) => (read rest).cons (.joined key value)
      | .setting key none =>
        match rest with
        | [] => ⟨[], .lacking key⟩
        | value :: rest => (read rest).cons (.apart key value)
      | .endOfOptions | .plain => ⟨[], .tail rest⟩

private theorem arguments_cons (item : Item) (line : Line) :
    (line.cons item).arguments = item.arguments ++ line.arguments := by
  simp [arguments, cons]

/-- Every argument stands in the line that is read. -/
theorem arguments_read (arguments : List String) : (read arguments).arguments = arguments := by
  fun_induction read arguments with
  | case1 => rfl
  | case2 argument rest hplain ih => rw [arguments_cons, ih, Item.arguments, List.singleton_append]
  | case3 argument rest _ hclass ih =>
    cases reads_iff.mpr hclass with
    | trace value => rw [arguments_cons, ih, Item.arguments, splitValue_trace, List.singleton_append]
  | case4 argument rest _ key value hclass ih =>
    cases reads_iff.mpr hclass with
    | setting => rw [arguments_cons, ih, Item.arguments, List.singleton_append]
  | case5 argument _ key hclass =>
    cases reads_iff.mpr hclass with
    | setting => simp [arguments, Ending.arguments]
  | case6 argument _ key hclass value rest ih =>
    cases reads_iff.mpr hclass with
    | setting => simp [arguments_cons, ih, Item.arguments]
  | case7 argument rest _ hclass =>
    cases reads_iff.mpr hclass with
    | endOfOptions => simp [arguments, Ending.arguments]
  | case8 argument rest hoption hclass => exact absurd (isPlain_iff.mpr hclass) hoption

private theorem read_item (item : Item) (rest : List String) :
    read (item.arguments ++ rest) = (read rest).cons item := by
  cases item with
  | plain argument h => simp [read, Item.arguments, h]
  | trace value => simp [read, Item.arguments, isPlain_iff, splitValue_trace]
  | joined key value | apart key value => simp [read, Item.arguments, isPlain_iff]

private theorem read_ending (ending : Ending) : read ending.arguments = ⟨[], ending⟩ := by
  cases ending with
  | complete => rfl
  | tail | lacking => simp [read, Ending.arguments, isPlain_iff]

/-- The arguments of a line can be read in no other way. -/
theorem read_arguments (line : Line) : read line.arguments = line := by
  obtain ⟨items, ending⟩ := line
  induction items with
  | nil => exact read_ending ending
  | cons item rest ih =>
    change read (cons item ⟨rest, ending⟩).arguments = cons item ⟨rest, ending⟩
    rw [arguments_cons, read_item, ih]

end Reading

section Run

/-- Reading goes on after an item with the options that the item leaves. -/
theorem parseFrom_item (options : Options) (item : Item) (rest : List String) :
    parseFrom options (item.arguments ++ rest) =
      item.apply options >>= fun options' => (parseFrom options' rest).map fun parsed =>
        (parsed.1, item.plain?.toList ++ parsed.2) := by
  cases item with
  | plain argument h =>
    have hclass := isPlain_iff.mp h
    simp only [Item.arguments, List.singleton_append, parseFrom, hclass, Item.apply, ok_bind]
    cases parseFrom options rest <;> rfl
  | trace value =>
    simp only [Item.arguments, List.singleton_append, parseFrom, classify_trace, Item.apply, ok_bind]
    cases parseFrom { options with trace := true } rest <;> rfl
  | joined key value | apart key value =>
    simp only [Item.arguments, List.cons_append, List.nil_append, parseFrom, classify_setting, Item.apply]
    cases options.set key value with
    | error e => rfl
    | ok options' =>
      simp only [ok_bind]
      cases parseFrom options' rest <;> rfl

private theorem parseFrom_ending (options : Options) (ending : Ending) :
    parseFrom options ending.arguments = ending.finish options [] := by
  cases ending with
  | complete => rfl
  | tail | lacking => simp [Ending.arguments, parseFrom, Ending.finish]

private theorem finish_append (options : Options) (first plain : List String) (ending : Ending) :
    ending.finish options (first ++ plain) =
      (ending.finish options plain).map fun parsed => (parsed.1, first ++ parsed.2) := by
  cases ending <;> simp [Ending.finish, Except.map]

/-- Reading a line is going through its items, and then looking at its end. -/
theorem parseFrom_arguments (options : Options) (line : Line) :
    parseFrom options line.arguments =
      line.items.foldlM Item.apply options >>= fun options' =>
        line.ending.finish options' line.plain := by
  obtain ⟨items, ending⟩ := line
  induction items generalizing options with
  | nil => exact parseFrom_ending options ending
  | cons item rest ih =>
    have hplain : plain ⟨item :: rest, ending⟩ = item.plain?.toList ++ plain ⟨rest, ending⟩ := by
      cases hitem : item.plain? <;> simp [plain, hitem]
    change parseFrom options (cons item ⟨rest, ending⟩).arguments = _
    rw [arguments_cons, parseFrom_item, hplain, List.foldlM_cons]
    cases item.apply options with
    | error e => rfl
    | ok options' =>
      simp only [ok_bind, ih, finish_append]
      cases rest.foldlM Item.apply options' <;> rfl

/-- A plain argument leaves the options alone. -/
theorem foldlM_settings (options : Options) (line : Line) :
    line.settings.foldlM Item.apply options = line.items.foldlM Item.apply options := by
  obtain ⟨items, ending⟩ := line
  rw [settings]
  dsimp only
  induction items generalizing options with
  | nil => rfl
  | cons item rest ih =>
    cases hoption : item.isOption with
    | true => simp [hoption, ih]
    | false =>
      cases item with
      | plain argument h =>
        rw [List.filter_cons_of_neg (by simp [Item.isOption]), ih]
        rfl
      | trace | joined | apart => cases hoption

/-- Lines with the same plain arguments and the same options, mixed in whatever
    way, are read alike. -/
theorem parse_mixed (hplain : other.plain = line.plain) (hsettings : other.settings = line.settings)
    (hending : other.ending = line.ending) : parse other.arguments = parse line.arguments := by
  rw [parse, parseFrom_arguments, parse, parseFrom_arguments, ← foldlM_settings, ← foldlM_settings,
    hplain, hsettings, hending]

end Run

section Outcome

/-- The values that are given for an option, in their order. -/
def values (items : List Item) (key : Key) : List String :=
  items.filterMap (Item.value? key)

/-- A line in which nothing is wrong: every value may be given for its option,
    and none is missing. -/
structure IsValid (line : Line) : Prop where
  values : ∀ key, ∀ value ∈ values line.items key, key.Accepts value
  complete : ∀ key, line.ending ≠ .lacking key

/-- The last one of some texts decides, by what it means; without any there is a
    default. -/
def LastDecides {α : Type} (texts : List String) (Means : String → α → Prop) (default result : α) : Prop :=
  match texts.getLast? with
  | none => result = default
  | some text => Means text result

/-- The options that some items ask for. -/
structure AskFor (items : List Item) (options : Options) : Prop where
  level : LastDecides (values items .level) IsLevel .warn options.level
  trace : options.trace = true ↔ ∃ value, .trace value ∈ items
  maxSteps : LastDecides (values items .maxSteps)
    (fun value limit => ∃ n, limit = some n ∧ IsStepCount value n) none options.maxSteps

private theorem lastDecides_concat {α : Type} {texts : List String} {text : String} {Means : String → α → Prop}
    {default result : α} : LastDecides (texts ++ [text]) Means default result ↔ Means text result := by
  simp [LastDecides]

private theorem values_append (items others : List Item) (key : Key) :
    values (items ++ others) key = values items key ++ values others key :=
  List.filterMap_append

/-- A single item gives an option its own value if it has one. -/
@[simp]
theorem values_singleton (item : Item) (key : Key) : values [item] key = (item.value? key).toList := by
  cases hvalue : item.value? key <;> simp [values, hvalue]

private theorem askFor_nil : AskFor [] {} where
  level := rfl
  trace := by simp
  maxSteps := rfl

/-- What one more item does to the options is what its value asks for. -/
theorem AskFor.apply {item : Item} (h : AskFor done options) (happly : item.apply options = .ok options') :
    AskFor (done ++ [item]) options' := by
  obtain ⟨hlevel, htrace, hmaxSteps⟩ := h
  cases item with
  | plain argument _ =>
    cases happly
    exact ⟨by simpa [values_append, Item.value?] using hlevel, by simpa using htrace,
      by simpa [values_append, Item.value?] using hmaxSteps⟩
  | trace value =>
    cases happly
    exact ⟨by simpa [values_append, Item.value?] using hlevel, by simp,
      by simpa [values_append, Item.value?] using hmaxSteps⟩
  | joined key value | apart key value =>
    cases set_eq_ok_iff.mp happly with
    | level hgiven =>
      exact ⟨by simpa [values_append, Item.value?, lastDecides_concat] using hgiven,
        by simpa using htrace, by simpa [values_append, Item.value?] using hmaxSteps⟩
    | maxSteps hgiven =>
      exact ⟨by simpa [values_append, Item.value?] using hlevel, by simpa using htrace,
        by simpa [values_append, Item.value?, lastDecides_concat] using hgiven⟩

private theorem AskFor.foldlM (h : AskFor done options) (hrun : items.foldlM Item.apply options = .ok options') :
    AskFor (done ++ items) options' := by
  induction items generalizing done options with
  | nil =>
    cases hrun
    simpa using h
  | cons item rest ih =>
    rw [List.foldlM_cons, bind_eq_ok_iff] at hrun
    obtain ⟨options₁, happly, hrest⟩ := hrun
    rw [List.append_cons]
    exact ih (h.apply happly) hrest

private theorem exists_apply_iff (options : Options) (item : Item) :
    (∃ options', item.apply options = .ok options') ↔
      ∀ key, ∀ value ∈ item.value? key, key.Accepts value := by
  cases item with
  | plain argument _ => simp [Item.apply, Item.value?]
  | trace value => simp [Item.apply, Item.value?]
  | joined key value | apart key value =>
    refine (exists_set_iff options key value).trans ⟨fun h other given hgiven => ?_, fun h => ?_⟩
    · simp only [Item.value?, Option.mem_def] at hgiven
      split at hgiven
      · next hkey =>
        cases hgiven
        exact hkey ▸ h
      · cases hgiven
    · exact h key value (by simp [Item.value?])

/-- Items can be gone through exactly if each value may be given for its option. -/
theorem exists_foldlM_iff (options : Options) (items : List Item) :
    (∃ options', items.foldlM Item.apply options = .ok options') ↔
      ∀ key, ∀ value ∈ values items key, key.Accepts value := by
  induction items generalizing options with
  | nil => simp [values, pure, Except.pure]
  | cons item rest ih =>
    have hvalues : (∀ key, ∀ value ∈ values (item :: rest) key, key.Accepts value) ↔
        (∀ key, ∀ value ∈ item.value? key, key.Accepts value) ∧
          ∀ key, ∀ value ∈ values rest key, key.Accepts value := by
      rw [← List.singleton_append]
      simp only [values_append, values_singleton, List.mem_append, Option.mem_toList,
        Option.mem_def, or_imp, forall_and]
    simp only [hvalues, ← exists_apply_iff options, List.foldlM_cons, bind_eq_ok_iff]
    constructor
    · rintro ⟨options', options₁, happly, hrest⟩
      exact ⟨⟨options₁, happly⟩, (ih options₁).mp ⟨options', hrest⟩⟩
    · rintro ⟨⟨options₁, happly⟩, hrest⟩
      obtain ⟨options', hrun⟩ := (ih options₁).mpr hrest
      exact ⟨options', options₁, happly, hrun⟩

private theorem finish_eq_ok_iff {ending : Ending} {plain rest : List String} :
    ending.finish options plain = .ok (options', rest) ↔
      (∀ key, ending ≠ .lacking key) ∧ options' = options ∧ rest = plain ++ ending.rest := by
  cases ending <;> simp [Ending.finish, Ending.rest, eq_comm]

private theorem parse_arguments_eq_ok_iff {rest : List String} :
    parse line.arguments = .ok (options, rest) ↔
      line.items.foldlM Item.apply {} = .ok options ∧ (∀ key, line.ending ≠ .lacking key) ∧
        rest = line.plain ++ line.ending.rest := by
  simp only [parse, parseFrom_arguments, bind_eq_ok_iff, finish_eq_ok_iff]
  constructor
  · rintro ⟨_, hrun, hcomplete, rfl, hrest⟩
    exact ⟨hrun, hcomplete, hrest⟩
  · rintro ⟨hrun, hcomplete, hrest⟩
    exact ⟨options, hrun, hcomplete, rfl, hrest⟩

/-- A line is read exactly if nothing is wrong with it. -/
theorem exists_parse_iff (line : Line) :
    (∃ options rest, parse line.arguments = .ok (options, rest)) ↔ line.IsValid := by
  simp only [parse_arguments_eq_ok_iff]
  constructor
  · rintro ⟨options, rest, hrun, hcomplete, -⟩
    exact ⟨(exists_foldlM_iff {} line.items).mp ⟨options, hrun⟩, hcomplete⟩
  · rintro ⟨hvalues, hcomplete⟩
    obtain ⟨options, hrun⟩ := (exists_foldlM_iff {} line.items).mpr hvalues
    exact ⟨options, _, hrun, hcomplete, rfl⟩

/-- What stands after the end of the options is only handed on. -/
theorem parse_tail {rest : List String} (h : line.ending = .tail rest) (rest' : List String) :
    parse ({ line with ending := .tail rest' } : Line).arguments =
      (parse line.arguments).map fun parsed => (parsed.1, line.plain ++ rest') := by
  rw [parse, parseFrom_arguments, parse, parseFrom_arguments, h]
  dsimp only
  cases line.items.foldlM Item.apply {} <;> rfl

end Outcome

end Line

/-- The options may stand anywhere among the arguments. Every list of arguments
    is in exactly one way a line: plain arguments, the option to trace, options
    with their value after an equals sign or in the next argument, and at the
    end nothing, two dashes with any arguments after them, or an option without
    its value. It is read if and only if every value may be given for its option
    and none is missing. What is left then is the plain arguments in their order
    and those after the two dashes, and each option has the last value that is
    given for it, or else its default. A line that mixes the same plain
    arguments and the same options in another way is read alike, and other
    arguments after the two dashes are only handed on. -/
theorem parse_anywhere (arguments : List String) :
    ∃ line : Line, line.arguments = arguments ∧
      (∀ other : Line, other.arguments = arguments → other = line) ∧
      ((∃ options rest, parse arguments = .ok (options, rest)) ↔ line.IsValid) ∧
      (∀ options rest, parse arguments = .ok (options, rest) →
        Line.AskFor line.items options ∧ rest = line.plain ++ line.ending.rest) ∧
      (∀ other : Line, other.plain = line.plain → other.settings = line.settings →
        other.ending = line.ending → parse other.arguments = parse arguments) ∧
      ∀ rest rest', line.ending = .tail rest →
        parse ({ line with ending := .tail rest' } : Line).arguments =
          (parse arguments).map fun parsed => (parsed.1, line.plain ++ rest') := by
  have hline := Line.arguments_read arguments
  refine ⟨Line.read arguments, hline, fun other hother => ?_, ?_, fun options rest h => ?_,
    fun other hplain hsettings hending => ?_, fun rest rest' hending => ?_⟩
  · rw [← hother, Line.read_arguments]
  · rw [← Line.exists_parse_iff, hline]
  · rw [← hline] at h
    obtain ⟨hrun, -, hrest⟩ := Line.parse_arguments_eq_ok_iff.mp h
    exact ⟨Line.askFor_nil.foldlM hrun, hrest⟩
  · rw [Line.parse_mixed hplain hsettings hending, hline]
  · rw [Line.parse_tail hending, hline]

example : parse ["--log-level", "INFO", "test", "--", "--trace"] =
    .ok ({ level := .info }, ["test", "--trace"]) := by
  decide

end WhilePlus.Options
