import RelayerCore.Lib.ValueTree

/-!
# The configuration of a binary (`bin-util/src/lib.rs`)

`try_deserialize` reads an optional file and the environment variables with the prefix `RELAYER`.
The `config` crate turns the rest of a variable's name into a path by a dot for every separator, so
that a field whose own name contains an underscore is out of reach.
-/

namespace RelayerCore
namespace BinUtil

open ValueTree (Comparable)

def ENV_APP_PREFIX : String := "RELAYER"

def SEPARATOR : Char := '_'

/-- A configuration: strings at paths of field names. -/
abbrev Configuration := ValueTree (List Char) String

/-- The characters of field names. -/
def fieldChars : List Char := "abcdefghijklmnopqrstuvwxyz0123456789_".toList

/-- The name of a field: lower case, with underscores. -/
structure FieldName where
  chars : List Char
  ne_nil : chars ≠ []
  valid : ∀ c ∈ chars, c ∈ fieldChars
  deriving DecidableEq

def FieldName.of (name : String) (hne : name.toList ≠ [])
    (hvalid : name.toList.all fieldChars.contains = true) : FieldName :=
  ⟨name.toList, hne, fun c hc => List.contains_iff_mem.mp (List.all_eq_true.mp hvalid c hc)⟩

/-! ### `config::Environment` -/

/-- The start of the names of the variables that are read, in lower case. -/
def prefixPattern : List Char := (ENV_APP_PREFIX.toList ++ [SEPARATOR]).map Char.toLower

/-- The character that stands for `c` in a dotted key. -/
def dot (c : Char) : Char := if c = SEPARATOR then '.' else c

/-- The dotted key of a variable: its name in lower case, without the prefix, with dots for the
separators; `none` for a variable without the prefix. -/
def dottedKey (name : List Char) : Option (List Char) :=
  let key := name.map Char.toLower
  if prefixPattern <+: key then
    some ((key.drop prefixPattern.length).map dot)
  else none

/-- A character of an identifier in a path expression. -/
def isIdentChar (c : Char) : Bool := c.isAlphanum || c = '_' || c = '-'

/-- The keys that `parsePath` reads: in ASCII, where `Char.toLower` is the crate's lower case, and
without subscripts such as `urls[0]`. -/
def Plain (key : List Char) : Prop := ∀ c ∈ key, c.val < 128 ∧ c ≠ '['

/-- A dotted key as a path; a key that is no path expression is a single name. -/
def parsePath (key : List Char) : List (List Char) :=
  let segments := key.splitOn '.'
  if segments.all fun segment => !segment.isEmpty && segment.all isIdentChar then segments
  else [key]

/-- The configuration after an environment variable. -/
def collect (configuration : Configuration) (entry : List Char × String) : Configuration :=
  match dottedKey entry.1 with
  | some key => configuration.set (.value entry.2) (parsePath key)
  | none => configuration

/-- `Config::builder()` with the file, if there is one, and the environment. -/
def build (file : Option Configuration) (environment : List (List Char × String)) :
    Configuration :=
  environment.foldl collect (file.getD .empty)

/-! ### Options from the environment -/

/-- The environment variable of an option. -/
def optionVariable (path : List FieldName) : List Char :=
  ENV_APP_PREFIX.toList ++ [SEPARATOR] ++
    [SEPARATOR].intercalate (path.map fun name => name.chars.map Char.toUpper)

/-- The path of an option. -/
def optionPath (path : List FieldName) : List (List Char) := path.map FieldName.chars

/-- No value at a path comparable with `target`. -/
def Free (target : List (List Char)) (configuration : Configuration) : Prop :=
  ∀ path value, configuration.get path = some (.value value) → ¬ Comparable path target

/-- The variable sets no path comparable with `target`. -/
def Elsewhere (target : List (List Char)) (entry : List Char × String) : Prop :=
  ∀ key, dottedKey entry.1 = some key → Plain key ∧ ¬ Comparable (parsePath key) target

/-- Where neither the file nor another variable sets the option, a part of it or a table it is in,
its variable sets this option; every other path has the value it has without the variable. -/
def SetsOption (path : List FieldName) (value : String) : Prop :=
  ∀ (file : Option Configuration) (before after : List (List Char × String)),
    Free (optionPath path) (file.getD .empty) →
    (∀ entry ∈ before ++ after, Elsewhere (optionPath path) entry) → ∀ path' value',
      (build file (before ++ (optionVariable path, value) :: after)).get path' =
          some (.value value') ↔
        path' = optionPath path ∧ value' = value ∨
          (build file (before ++ after)).get path' = some (.value value')

section Keys

variable {path : List FieldName}

/-- Every field name comes back from its upper case. -/
theorem toLower_toUpper {c : Char} (h : c ∈ fieldChars) : c.toUpper.toLower = c := by
  have hall : fieldChars.all (fun c => c.toUpper.toLower == c) = true := by decide
  exact eq_of_beq (List.all_eq_true.mp hall c h)

theorem isIdentChar_of_mem {c : Char} (h : c ∈ fieldChars) : isIdentChar c = true := by
  have hall : fieldChars.all isIdentChar = true := by decide
  exact List.all_eq_true.mp hall c h

theorem dot_notMem_fieldChars : '.' ∉ fieldChars := by decide

theorem map_intercalate_singleton {α β : Type} (f : α → β) (a : α) (xss : List (List α)) :
    ([a].intercalate xss).map f = [f a].intercalate (xss.map (List.map f)) := by
  induction xss with
  | nil => rfl
  | cons xs rest ih =>
    cases rest with
    | nil => simp
    | cons ys rest =>
      rw [List.intercalate_cons_cons, List.map_cons, List.map_cons, List.intercalate_cons_cons,
        List.map_append, List.map_append, ih]
      rfl

/-- What is in a part of a split list is in the list. -/
theorem mem_of_mem_splitOn {α : Type} [BEq α] [LawfulBEq α] {a x : α} {xs part : List α}
    (hpart : part ∈ xs.splitOn a) (hx : x ∈ part) : x ∈ xs := by
  have hjoin : ∀ xss : List (List α), part ∈ xss → x ∈ [a].intercalate xss := by
    intro xss
    induction xss with
    | nil => exact fun h => absurd h List.not_mem_nil
    | cons ys rest ih =>
      intro h
      cases rest with
      | nil =>
        rw [List.mem_singleton] at h
        rw [List.intercalate_singleton, ← h]
        exact hx
      | cons zs rest =>
        rw [List.intercalate_cons_cons, List.mem_append, List.mem_append]
        rcases List.mem_cons.mp h with rfl | h
        · exact Or.inl (Or.inl hx)
        · exact Or.inr (ih h)
  have h := hjoin _ hpart
  rwa [List.intercalate_splitOn] at h

theorem dot_ne_separator (c : Char) : dot c ≠ SEPARATOR := by
  unfold dot
  split_ifs with h
  · decide
  · exact h

theorem dottedKey_optionVariable (path : List FieldName) : dottedKey (optionVariable path) =
    some (['.'].intercalate (path.map fun name => name.chars.map dot)) := by
  have hnames : (path.map fun name => name.chars.map Char.toUpper).map (List.map Char.toLower) =
      path.map FieldName.chars := by
    rw [List.map_map]
    refine List.map_congr_left fun name _ => ?_
    rw [Function.comp_apply, List.map_map]
    have hchars : ∀ c ∈ name.chars, (Char.toLower ∘ Char.toUpper) c = id c := fun c hc =>
      toLower_toUpper (name.valid c hc)
    rw [List.map_congr_left hchars, List.map_id]
  have hlower : (optionVariable path).map Char.toLower =
      prefixPattern ++ [SEPARATOR].intercalate (path.map FieldName.chars) := by
    unfold optionVariable
    rw [List.map_append, map_intercalate_singleton, hnames]
    rfl
  unfold dottedKey
  rw [hlower, if_pos (List.prefix_append _ _), List.drop_left]
  rw [map_intercalate_singleton, List.map_map]
  rfl

theorem separator_notMem_dottedKey {name key : List Char} (h : dottedKey name = some key) :
    SEPARATOR ∉ key := by
  unfold dottedKey at h
  dsimp only at h
  split_ifs at h
  cases h
  intro hmem
  obtain ⟨c, -, hc⟩ := List.mem_map.mp hmem
  exact dot_ne_separator c hc

/-- No name of a path has a separator. -/
theorem separator_notMem_parsePath {key : List Char} (hkey : SEPARATOR ∉ key) :
    ∀ name ∈ parsePath key, SEPARATOR ∉ name := by
  intro name hname
  unfold parsePath at hname
  dsimp only at hname
  split_ifs at hname
  · exact fun hmem => hkey (mem_of_mem_splitOn hname hmem)
  · rw [List.mem_singleton] at hname
    rw [hname]
    exact hkey

/-- A path comes back from its dotted form. -/
theorem parsePath_intercalate (hne : path ≠ []) :
    parsePath (['.'].intercalate (path.map FieldName.chars)) = path.map FieldName.chars := by
  have hsplit : (['.'].intercalate (path.map FieldName.chars)).splitOn '.' =
      path.map FieldName.chars := by
    refine List.splitOn_intercalate '.' ?_ (by simpa using hne)
    intro chars hchars hdot
    obtain ⟨name, -, rfl⟩ := List.mem_map.mp hchars
    exact dot_notMem_fieldChars (name.valid _ hdot)
  unfold parsePath
  rw [hsplit]
  apply if_pos
  rw [List.all_eq_true]
  intro chars hchars
  obtain ⟨name, -, rfl⟩ := List.mem_map.mp hchars
  have hident : name.chars.all isIdentChar = true :=
    List.all_eq_true.mpr fun c hc => isIdentChar_of_mem (name.valid c hc)
  rw [hident, Bool.and_true, Bool.not_eq_true', List.isEmpty_eq_false_iff]
  exact name.ne_nil

/-- The key of an option's variable, when no name on its path has a separator. -/
theorem parsePath_dottedKey (hne : path ≠ []) (hpath : ∀ name ∈ path, SEPARATOR ∉ name.chars) :
    parsePath (['.'].intercalate (path.map fun name => name.chars.map dot)) = optionPath path := by
  have hdots : (path.map fun name => name.chars.map dot) = path.map FieldName.chars := by
    refine List.map_congr_left fun name hname => ?_
    have hchars : ∀ c ∈ name.chars, dot c = id c := by
      intro c hc
      apply if_neg
      rintro rfl
      exact hpath name hname hc
    rw [List.map_congr_left hchars, List.map_id]
  rw [hdots]
  exact parsePath_intercalate hne

end Keys

section Values

variable {configuration alone : Configuration} {target : List (List Char)} {value : String}

/-- The values after a variable: its own, and those at incomparable paths. -/
theorem collect_get_iff {entry : List Char × String} {key : List Char}
    (h : dottedKey entry.1 = some key) (configuration : Configuration) (path : List (List Char))
    (value : String) : (collect configuration entry).get path = some (.value value) ↔
      path = parsePath key ∧ value = entry.2 ∨
        ¬ Comparable path (parsePath key) ∧ configuration.get path = some (.value value) := by
  unfold collect
  rw [h]
  exact ValueTree.get_set_eq_value_iff

/-- The values of `alone`, and one more. -/
def Adds (target : List (List Char)) (value : String) (alone configuration : Configuration) :
    Prop :=
  ∀ path value', configuration.get path = some (.value value') ↔
    path = target ∧ value' = value ∨ alone.get path = some (.value value')

/-- A variable with an incomparable path sets nothing at the paths comparable with `target`. -/
theorem Free.collect (h : Free target configuration) {entry : List Char × String}
    (hentry : Elsewhere target entry) : Free target (collect configuration entry) := by
  intro path value hget
  cases hkey : dottedKey entry.1 with
  | none =>
    unfold BinUtil.collect at hget
    rw [hkey] at hget
    exact h path value hget
  | some key =>
    rcases (collect_get_iff hkey configuration path value).mp hget with ⟨rfl, -⟩ | ⟨-, hold⟩
    · exact (hentry key hkey).2
    · exact h path value hold

/-- A variable with an incomparable path keeps the value that was added. -/
theorem Adds.collect (h : Adds target value alone configuration) {entry : List Char × String}
    (hentry : Elsewhere target entry) :
    Adds target value (BinUtil.collect alone entry) (BinUtil.collect configuration entry) := by
  intro path value'
  cases hkey : dottedKey entry.1 with
  | none =>
    unfold BinUtil.collect
    rw [hkey]
    exact h path value'
  | some key =>
    have htarget : ¬ Comparable target (parsePath key) := fun hc => (hentry key hkey).2 hc.symm
    rw [collect_get_iff hkey, collect_get_iff hkey, h path value']
    constructor
    · rintro (hown | ⟨hcomparable, hadded | hold⟩)
      · exact Or.inr (Or.inl hown)
      · exact Or.inl hadded
      · exact Or.inr (Or.inr ⟨hcomparable, hold⟩)
    · rintro (hadded | hown | ⟨hcomparable, hold⟩)
      · refine Or.inr ⟨?_, Or.inl hadded⟩
        rw [hadded.1]
        exact htarget
      · exact Or.inl hown
      · exact Or.inr ⟨hcomparable, Or.inr hold⟩

variable {environment : List (List Char × String)}

theorem Free.foldl (h : Free target configuration)
    (hentries : ∀ entry ∈ environment, Elsewhere target entry) :
    Free target (environment.foldl BinUtil.collect configuration) := by
  induction environment generalizing configuration with
  | nil => exact h
  | cons entry rest ih =>
    exact ih (h.collect (hentries entry List.mem_cons_self))
      fun e he => hentries e (List.mem_cons_of_mem _ he)

theorem Adds.foldl (h : Adds target value alone configuration)
    (hentries : ∀ entry ∈ environment, Elsewhere target entry) :
    Adds target value (environment.foldl BinUtil.collect alone)
      (environment.foldl BinUtil.collect configuration) := by
  induction environment generalizing alone configuration with
  | nil => exact h
  | cons entry rest ih =>
    exact ih (h.collect (hentries entry List.mem_cons_self))
      fun e he => hentries e (List.mem_cons_of_mem _ he)

/-- The variable of `target` adds its value where nothing comparable is set. -/
theorem Free.adds (h : Free target configuration) {entry : List Char × String}
    {key : List Char} (hkey : dottedKey entry.1 = some key) (hpath : parsePath key = target) :
    Adds target entry.2 configuration (BinUtil.collect configuration entry) := by
  intro path value
  rw [collect_get_iff hkey, hpath]
  constructor
  · rintro (hown | ⟨-, hold⟩)
    · exact Or.inl hown
    · exact Or.inr hold
  · rintro (hown | hold)
    · exact Or.inl hown
    · exact Or.inr ⟨h path value hold, hold⟩

/-- The variable of an option alone sets one path. -/
theorem build_option_iff (path : List FieldName) (value : String) (path' : List (List Char))
    (value' : String) : (build none [(optionVariable path, value)]).get path' =
      some (.value value') ↔
    path' = parsePath (['.'].intercalate (path.map fun name => name.chars.map dot)) ∧
      value' = value := by
  unfold build
  rw [List.foldl_cons, List.foldl_nil, collect_get_iff (dottedKey_optionVariable path)]
  have hempty := ValueTree.get_empty_ne_value path' value'
  constructor
  · rintro (hown | ⟨-, hold⟩)
    · exact hown
    · exact absurd hold hempty
  · exact Or.inl

/-- What sets an option sets it without a file and without other variables. -/
theorem SetsOption.path_eq {path : List FieldName} (h : SetsOption path value) :
    optionPath path =
      parsePath (['.'].intercalate (path.map fun name => name.chars.map dot)) := by
  have hset := (h none [] [] (fun path' value' hget =>
    absurd hget (ValueTree.get_empty_ne_value path' value')) (List.forall_mem_nil _)
    (optionPath path) value).mpr (Or.inl ⟨rfl, rfl⟩)
  exact ((build_option_iff path value _ _).mp hset).1

end Values

/-- An option can be set from the environment exactly when no name on its path has an
underscore. -/
theorem sets_option_iff {path : List FieldName} (hne : path ≠ []) (value : String) :
    SetsOption path value ↔ ∀ name ∈ path, SEPARATOR ∉ name.chars := by
  constructor
  · intro h name hname hmem
    have hkey := separator_notMem_dottedKey (dottedKey_optionVariable path)
    refine separator_notMem_parsePath hkey name.chars ?_ hmem
    rw [← h.path_eq]
    exact List.mem_map_of_mem hname
  · intro hpath file before after hfile hothers
    have hbefore : Free (optionPath path) (before.foldl collect (file.getD .empty)) :=
      Free.foldl hfile fun e he => hothers e (List.mem_append_left _ he)
    have hadds : Adds (optionPath path) value (before.foldl collect (file.getD .empty))
        (collect (before.foldl collect (file.getD .empty)) (optionVariable path, value)) :=
      hbefore.adds (dottedKey_optionVariable path) (parsePath_dottedKey hne hpath)
    unfold build
    rw [List.foldl_append, List.foldl_append, List.foldl_cons]
    exact hadds.foldl fun e he => hothers e (List.mem_append_right before he)

theorem sets_option_amplifier_url :
    SetsOption [.of "amplifier" (by decide) (by decide), .of "url" (by decide) (by decide)]
      "https://example.com" :=
  (sets_option_iff (by decide) _).mpr (by decide)

/-- The path of `health_check::Config::health_check_port`. -/
def healthCheckPort : List FieldName := [.of "health_check_port" (by decide) (by decide)]

/-- `RELAYER_HEALTH_CHECK_PORT` sets `health.check.port`. -/
theorem health_check_port_not_set : ¬ SetsOption healthCheckPort "8080" := by
  intro h
  exact absurd h.path_eq (by decide)

end BinUtil
end RelayerCore
