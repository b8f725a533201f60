import Mathlib.Data.List.DropRight
import RelayerCore.Lib.PercentCode

/-!
# Resolving references against http URLs

The WHATWG algorithm for a reference and an `http` or `https` base, state by state.  What comes
before the path of an absolute reference, and URLs with other schemes, are the business of a
`Parser`; paths are not.
-/

namespace Url

open PercentCode

/-! ### Characters -/

def isControlOrSpace (c : Char) : Bool := c.toNat ≤ 0x20

def isTabOrNewline (c : Char) : Bool := c = '\t' || c = '\n' || c = '\r'

/-- In special URLs a backslash is a slash. -/
def isSlash (c : Char) : Bool := c = '/' || c = '\\'

/-- The C0 control percent-encode set. -/
def controlSet (c : Char) : Bool := c.toNat ≤ 0x1F || 0x7E < c.toNat

/-- The query percent-encode set of special URLs: besides the controls, space and `"#<>'`. -/
def querySet (c : Char) : Bool := controlSet c || [0x20, 0x22, 0x23, 0x3C, 0x3E, 0x27].contains c.toNat

/-- The fragment percent-encode set: besides the controls, space, `"<>` and the backtick. -/
def fragmentSet (c : Char) : Bool := controlSet c || [0x20, 0x22, 0x3C, 0x3E, 0x60].contains c.toNat

/-- The path percent-encode set: besides the controls, space, `"#<>?`, the backtick and braces. -/
def pathSet (c : Char) : Bool :=
  controlSet c || [0x20, 0x22, 0x23, 0x3C, 0x3E, 0x3F, 0x60, 0x7B, 0x7D].contains c.toNat

/-! ### URLs -/

inductive Scheme
  | http
  | https
  deriving DecidableEq

/-- The special schemes with a host that are treated here. -/
def Scheme.of (scheme : List Char) : Option Scheme :=
  if scheme = "http".toList then some .http
  else if scheme = "https".toList then some .https
  else none

/-- A segment of a path, percent-encoded. -/
abbrev Segment := List Char

/-- The path of a special URL, never empty, with what follows it. -/
structure Path where
  dir : List Segment
  last : Segment
  query : Option (List Char)
  fragment : Option (List Char)
  deriving DecidableEq

/-- An http URL; `authority` is its credentials, host and port. -/
structure HttpUrl (A : Type) extends Path where
  scheme : Scheme
  authority : A

/-- An http URL, or a URL with another scheme. -/
inductive Resolved (A O : Type)
  | http (url : HttpUrl A)
  | other (url : O)

/-- The parts of URL parsing that paths of http URLs do not depend on. -/
structure Parser (A O : Type) where
  parseAuthority : Scheme → List Char → Option A
  parseOther : List Char → Option O
  /-- a reference without a scheme, against a URL with another scheme -/
  joinOther : O → List Char → Option O
  appendPairs : O → List (List Char × List Char) → O

/-! ### Paths -/

def isSingleDot (buffer : Segment) : Bool :=
  [".".toList, "%2e".toList, "%2E".toList].contains buffer

def isDoubleDot (buffer : Segment) : Bool :=
  ["..".toList, ".%2e".toList, ".%2E".toList, "%2e.".toList, "%2E.".toList, "%2e%2e".toList,
    "%2e%2E".toList, "%2E%2e".toList, "%2E%2E".toList].contains buffer

/-- The path after a segment that ends at a slash. -/
def pushSegment (dir : List Segment) (buffer : Segment) : List Segment :=
  if isDoubleDot buffer then dir.dropLast
  else if isSingleDot buffer then dir
  else dir ++ [buffer]

/-- The path whose last segment is `buffer`. -/
def closePath (dir : List Segment) (buffer : Segment) (query fragment : Option (List Char)) : Path :=
  if isDoubleDot buffer then ⟨dir.dropLast, [], query, fragment⟩
  else if isSingleDot buffer then ⟨dir, [], query, fragment⟩
  else ⟨dir, buffer, query, fragment⟩

/-- What follows a question mark: the query and the fragment. -/
def queryState (input : List Char) : List Char × Option (List Char) :=
  (encode querySet (input.takeWhile (· ≠ '#')),
    (input.dropWhile (· ≠ '#')).tail?.map (encode fragmentSet))

/-- The path state. -/
def pathState (dir : List Segment) (buffer : Segment) : List Char → Path
  | [] => closePath dir buffer none none
  | c :: input =>
    if isSlash c then pathState (pushSegment dir buffer) [] input
    else if c = '?' then closePath dir buffer (some (queryState input).1) (queryState input).2
    else if c = '#' then closePath dir buffer none (some (encode fragmentSet input))
    else pathState dir (buffer ++ encodeChar pathSet c) input

/-! ### References -/

section Resolve

variable {A O : Type} (p : Parser A O)

/-- Without leading and trailing controls and spaces, and without tabs and newlines. -/
def clean (input : List Char) : List Char :=
  ((input.dropWhile isControlOrSpace).rdropWhile isControlOrSpace).filter
    fun c => !isTabOrNewline c

def isSchemeChar (c : Char) : Bool := c.isAlphanum || c = '+' || c = '-' || c = '.'

/-- The scheme of a reference, in lower case, and what comes after its colon. -/
def splitScheme : List Char → Option (List Char × List Char)
  | [] => none
  | c :: input =>
    if c.isAlpha then
      match input.dropWhile isSchemeChar with
      | ':' :: rest => some ((c :: input.takeWhile isSchemeChar).map Char.toLower, rest)
      | _ => none
    else none

/-- The special authority ignore slashes, authority and path start states. -/
def authorityState (scheme : Scheme) (input : List Char) : Option (HttpUrl A) :=
  let input := input.dropWhile isSlash
  let isEnd := fun c => isSlash c || c = '?' || c = '#'
  match p.parseAuthority scheme (input.takeWhile fun c => !isEnd c) with
  | none => none
  | some authority =>
    match input.dropWhile fun c => !isEnd c with
    | [] => some { closePath [] [] none none with scheme, authority }
    | c :: rest =>
      some { pathState [] [] (if isSlash c then rest else c :: rest) with scheme, authority }

/-- The relative and relative slash states. -/
def relativeState (base : HttpUrl A) : List Char → Option (HttpUrl A)
  | [] => some { base with fragment := none }
  | c :: input =>
    if isSlash c then
      match input with
      | [] => some { pathState [] [] [] with scheme := base.scheme, authority := base.authority }
      | d :: rest =>
        if isSlash d then authorityState p base.scheme rest
        else some { pathState [] [] (d :: rest) with
          scheme := base.scheme, authority := base.authority }
    else if c = '?' then
      some { base with query := some (queryState input).1, fragment := (queryState input).2 }
    else if c = '#' then some { base with fragment := some (encode fragmentSet input) }
    else some { pathState base.dir [] (c :: input) with
      scheme := base.scheme, authority := base.authority }

/-- `Url::join`: a reference against a base. -/
def join (base : Resolved A O) (input : List Char) : Option (Resolved A O) :=
  let input := clean input
  match splitScheme input with
  | some (name, rest) =>
    match Scheme.of name with
    | none => (p.parseOther input).map .other
    | some scheme =>
      match base with
      | .http url =>
        -- the special relative or authority state
        if url.scheme = scheme ∧ ¬ "//".toList <+: rest then (relativeState p url rest).map .http
        else (authorityState p scheme rest).map .http
      | .other _ => (authorityState p scheme rest).map .http
  | none =>
    match base with
    | .http url => (relativeState p url input).map .http
    | .other url => (p.joinOther url input).map .other

/-- A pair more in a query, of a name and a value that are written as they are. -/
def appendPair (query : List Char) (pair : List Char × List Char) : List Char :=
  (if query = [] then [] else query ++ ['&']) ++ pair.1 ++ '=' :: pair.2

/-- `Url::query_pairs_mut` and its `append_pair`s. -/
def appendPairs (url : Resolved A O) (pairs : List (List Char × List Char)) : Resolved A O :=
  match url with
  | .http url => .http { url with query := some (pairs.foldl appendPair (url.query.getD [])) }
  | .other url => .other (p.appendPairs url pairs)

end Resolve

/-! ### Where segments come from -/

/-- A character that ends no segment. -/
def isPlain (c : Char) : Bool := !isSlash c && c != '?' && c != '#'

/-- The path of a URL with its last segment. -/
def Path.segments (path : Path) : List Segment := path.dir ++ [path.last]

/-- The segment is made of characters of the input, without delimiters, and is no dot segment. -/
def MadeOf (input : List Char) (s : Segment) : Prop :=
  ∃ piece, s = encode pathSet piece ∧ piece.Sublist input ∧ (∀ c ∈ piece, isPlain c = true) ∧
    isSingleDot s = false ∧ isDoubleDot s = false

/-- The segments are some of the first ones of `dir`, then segments made of the input. -/
def Grown (dir : List Segment) (input : List Char) (segments : List Segment) : Prop :=
  ∃ k added, segments = dir.take k ++ added ∧ ∀ s ∈ added, MadeOf input s

section Grown

variable {dir segments : List Segment} {input : List Char} {s : Segment}

theorem grown_refl (dir : List Segment) (input : List Char) : Grown dir input dir :=
  ⟨dir.length, [], by simp, List.forall_mem_nil _⟩

theorem Grown.push (h : Grown dir input segments) (hs : MadeOf input s) :
    Grown dir input (segments ++ [s]) := by
  obtain ⟨k, added, rfl, hadded⟩ := h
  refine ⟨k, added ++ [s], List.append_assoc _ _ _, fun s' hs' => ?_⟩
  rcases List.mem_append.mp hs' with hs' | hs'
  · exact hadded s' hs'
  · rw [List.mem_singleton.mp hs']
    exact hs

theorem Grown.dropLast (h : Grown dir input segments) : Grown dir input segments.dropLast := by
  obtain ⟨k, added, rfl, hadded⟩ := h
  by_cases hnil : added = []
  · refine ⟨min k dir.length - 1, [], ?_, List.forall_mem_nil _⟩
    rw [hnil, List.append_nil, List.append_nil, List.dropLast_eq_take, List.length_take,
      List.take_take, min_eq_left (Nat.sub_le_of_le_add (by omega))]
  · refine ⟨k, added.dropLast, List.dropLast_append_of_ne_nil hnil, fun s hs => ?_⟩
    exact hadded s (List.mem_of_mem_dropLast hs)

/-- Segments beyond `dir` are made of the input. -/
theorem Grown.madeOf {before after : List Segment} (h : Grown dir input (before ++ s :: after))
    (hlen : dir.length ≤ before.length) : MadeOf input s := by
  obtain ⟨k, added, heq, hadded⟩ := h
  apply hadded
  have hdrop := congrArg (List.drop (dir.take k).length) heq
  have hk : (dir.take k).length ≤ before.length := (List.length_take_le' k dir).trans hlen
  rw [List.drop_left, List.drop_append_of_le_length hk] at hdrop
  rw [← hdrop]
  simp

theorem madeOf_nil (input : List Char) : MadeOf input [] :=
  ⟨[], rfl, List.nil_sublist input, List.forall_mem_nil _, rfl, rfl⟩

variable {raw : List Char}

/-- What has been read of a segment, as long as it is no dot segment. -/
theorem madeOf_buffer (hsub : raw.Sublist input) (hraw : ∀ c ∈ raw, isPlain c = true)
    (hdouble : ¬ isDoubleDot (encode pathSet raw) = true)
    (hsingle : ¬ isSingleDot (encode pathSet raw) = true) :
    MadeOf input (encode pathSet raw) :=
  ⟨raw, rfl, hsub, hraw, Bool.eq_false_of_not_eq_true hsingle,
    Bool.eq_false_of_not_eq_true hdouble⟩

theorem grown_pushSegment (h : Grown dir input segments) (hsub : raw.Sublist input)
    (hraw : ∀ c ∈ raw, isPlain c = true) :
    Grown dir input (pushSegment segments (encode pathSet raw)) := by
  unfold pushSegment
  split_ifs with hdouble hsingle
  · exact h.dropLast
  · exact h
  · exact h.push (madeOf_buffer hsub hraw hdouble hsingle)

theorem grown_closePath (h : Grown dir input segments) (hsub : raw.Sublist input)
    (hraw : ∀ c ∈ raw, isPlain c = true) (query fragment : Option (List Char)) :
    Grown dir input (closePath segments (encode pathSet raw) query fragment).segments := by
  unfold closePath
  split_ifs with hdouble hsingle
  · exact h.dropLast.push (madeOf_nil input)
  · exact h.push (madeOf_nil input)
  · exact h.push (madeOf_buffer hsub hraw hdouble hsingle)

/-- The path state keeps some of the first segments and adds segments made of its input. -/
theorem grown_pathState {rest : List Char} (h : Grown dir input segments)
    (hsub : (raw ++ rest).Sublist input) (hraw : ∀ c ∈ raw, isPlain c = true) :
    Grown dir input (pathState segments (encode pathSet raw) rest).segments := by
  induction rest generalizing segments raw with
  | nil =>
    rw [List.append_nil] at hsub
    exact grown_closePath h hsub hraw none none
  | cons c rest ih =>
    have hbuffer : raw.Sublist input := (List.sublist_append_left raw _).trans hsub
    have hrest : ([] ++ rest).Sublist input :=
      ((List.sublist_cons_self c rest).trans (List.sublist_append_right raw _)).trans hsub
    unfold pathState
    split_ifs with hslash hquery hfragment
    · exact ih (grown_pushSegment h hbuffer hraw) hrest (List.forall_mem_nil _)
    · exact grown_closePath h hbuffer hraw _ _
    · exact grown_closePath h hbuffer hraw _ _
    · have hplain : isPlain c = true := by
        simp [isPlain, hslash, hquery, hfragment]
      have hencode : encode pathSet raw ++ encodeChar pathSet c = encode pathSet (raw ++ [c]) := by
        rw [encode_append]
        simp [encode]
      rw [hencode]
      refine ih h ?_ fun d hd => ?_
      · rwa [List.append_assoc]
      · rcases List.mem_append.mp hd with hd | hd
        · exact hraw d hd
        · rw [List.mem_singleton.mp hd]
          exact hplain

theorem grown_pathState_nil (dir : List Segment) (input : List Char) :
    Grown dir input (pathState dir [] input).segments :=
  grown_pathState (grown_refl dir input) (List.Sublist.refl _) (List.forall_mem_nil _)

end Grown

/-! ### What a reference can do to a path -/

section Cases

variable {A O : Type} {p : Parser A O} {u v : HttpUrl A} {input : List Char}

theorem authorityState_grown {scheme : Scheme} (h : authorityState p scheme input = some v) :
    ∃ r, r.Sublist input ∧ Grown [] r v.toPath.segments := by
  unfold authorityState at h
  dsimp only at h
  have hnil : (input.dropWhile isSlash).Sublist input := List.dropWhile_sublist _
  split at h
  · cases h
  · split at h
    · cases h
      exact ⟨[], List.nil_sublist _, (grown_refl [] []).push (madeOf_nil [])⟩
    · rename_i c rest heq
      have hrest : (c :: rest).Sublist input := by
        rw [← heq]
        exact (List.dropWhile_sublist _).trans hnil
      cases h
      refine ⟨if isSlash c then rest else c :: rest, ?_, ?_⟩
      · split_ifs
        · exact (List.sublist_cons_self c rest).trans hrest
        · exact hrest
      · exact grown_pathState_nil [] _

/-- The directory stays, or the path grows from it by the whole input, or from nothing by less. -/
theorem relativeState_cases (h : relativeState p u input = some v) :
    v.dir = u.dir ∨ Grown u.dir input v.toPath.segments ∨
      ∃ r, r.Sublist input ∧ r.length < input.length ∧ Grown [] r v.toPath.segments := by
  cases input with
  | nil =>
    cases h
    exact Or.inl rfl
  | cons c input =>
    dsimp only [relativeState] at h
    split_ifs at h with hslash hquery hfragment
    · right
      right
      cases input with
      | nil =>
        cases h
        exact ⟨[], List.nil_sublist _, Nat.zero_lt_one, grown_pathState_nil [] []⟩
      | cons d rest =>
        have hrest : rest.Sublist (c :: d :: rest) :=
          (List.sublist_cons_self d rest).trans (List.sublist_cons_self c _)
        dsimp only at h
        split_ifs at h with hslash'
        · obtain ⟨r, hr, hgrown⟩ := authorityState_grown h
          have hlen := hr.length_le
          exact ⟨r, hr.trans hrest, by simp only [List.length_cons]; omega, hgrown⟩
        · cases h
          exact ⟨d :: rest, List.sublist_cons_self c _, Nat.lt_succ_self _,
            grown_pathState_nil [] _⟩
    · cases h
      exact Or.inl rfl
    · cases h
      exact Or.inl rfl
    · cases h
      exact Or.inr (Or.inl (grown_pathState_nil _ _))

theorem splitScheme_rest {name rest : List Char} (h : splitScheme input = some (name, rest)) :
    rest.Sublist input ∧ rest.length + 1 < input.length := by
  cases input with
  | nil => cases h
  | cons c input =>
    dsimp only [splitScheme] at h
    split_ifs at h with halpha
    split at h
    · rename_i rest' heq
      cases h
      have hsub : (':' :: rest).Sublist input := by
        rw [← heq]
        exact List.dropWhile_sublist _
      have hlen := hsub.length_le
      refine ⟨((List.sublist_cons_self _ _).trans hsub).trans (List.sublist_cons_self c _), ?_⟩
      simp only [List.length_cons] at hlen ⊢
      omega
    · cases h

/-- What the path grows by is most of the cleaned input only when that has no scheme. -/
theorem join_cases (h : join p (.http u) input = some (.http v)) :
    v.dir = u.dir ∨ ∃ dir r, dir.length ≤ u.dir.length ∧ Grown dir r v.toPath.segments ∧
      r.Sublist (clean input) ∧
      ((clean input).length ≤ r.length + 1 → splitScheme (clean input) = none) := by
  have hnil : ([] : List Segment).length ≤ u.dir.length := Nat.zero_le _
  unfold join at h
  dsimp only at h
  split at h
  · rename_i name rest hscheme
    have hrest := splitScheme_rest hscheme
    have habsolute : ∀ {scheme : Scheme},
        (authorityState p scheme rest).map .http = some (.http v : Resolved A O) →
        ∃ dir r, dir.length ≤ u.dir.length ∧ Grown dir r v.toPath.segments ∧
          r.Sublist (clean input) ∧
          ((clean input).length ≤ r.length + 1 → splitScheme (clean input) = none) := by
      intro scheme h
      obtain ⟨w, hw, hv⟩ := Option.map_eq_some_iff.mp h
      cases hv
      obtain ⟨r, hr, hgrown⟩ := authorityState_grown hw
      have hlen := hr.length_le
      exact ⟨[], r, hnil, hgrown, hr.trans hrest.1, fun heq => by omega⟩
    split at h
    · obtain ⟨o, -, ho⟩ := Option.map_eq_some_iff.mp h
      cases ho
    · split_ifs at h with hsame
      · obtain ⟨w, hw, hv⟩ := Option.map_eq_some_iff.mp h
        cases hv
        rcases relativeState_cases hw with hdir | hgrown | ⟨r, hr, hlt, hgrown⟩
        · exact Or.inl hdir
        · exact Or.inr ⟨u.dir, rest, le_refl _, hgrown, hrest.1, fun heq => by omega⟩
        · exact Or.inr ⟨[], r, hnil, hgrown, hr.trans hrest.1, fun heq => by omega⟩
      · exact Or.inr (habsolute h)
  · rename_i hscheme
    obtain ⟨w, hw, hv⟩ := Option.map_eq_some_iff.mp h
    cases hv
    rcases relativeState_cases hw with hdir | hgrown | ⟨r, hr, hlt, hgrown⟩
    · exact Or.inl hdir
    · exact Or.inr ⟨u.dir, clean input, le_refl _, hgrown, List.Sublist.refl _, fun _ => hscheme⟩
    · exact Or.inr ⟨[], r, hnil, hgrown, hr, fun _ => hscheme⟩

end Cases

/-! ### Segments that stay as they are -/

theorem keepsEscapes_pathSet : KeepsEscapes pathSet := by
  intro c hc
  have hrange : c.toNat = 0x25 ∨ (0x30 ≤ c.toNat ∧ c.toNat ≤ 0x39) ∨
      (0x41 ≤ c.toNat ∧ c.toNat ≤ 0x46) ∨ (0x61 ≤ c.toNat ∧ c.toNat ≤ 0x66) := by
    rcases hc with rfl | hc
    · exact Or.inl rfl
    · right
      unfold unhex at hc
      split_ifs at hc with h0 hA ha
      · exact Or.inl h0
      · exact Or.inr (Or.inl hA)
      · exact Or.inr (Or.inr ha)
      · cases hc
  simp only [pathSet, controlSet, Bool.or_eq_false_iff, decide_eq_false_iff_not]
  refine ⟨⟨by omega, by omega⟩, ?_⟩
  rw [List.contains_eq_mem, decide_eq_false_iff_not]
  simp only [List.mem_cons, List.not_mem_nil, or_false]
  omega

theorem decode_of_isSingleDot {s : Segment} (h : isSingleDot s = true) :
    decode s = utf8 ".".toList := by
  unfold isSingleDot at h
  rw [List.contains_eq_mem, decide_eq_true_eq] at h
  have hall : ∀ s ∈ [".".toList, "%2e".toList, "%2E".toList], decode s = utf8 ".".toList := by
    decide
  exact hall s h

theorem decode_of_isDoubleDot {s : Segment} (h : isDoubleDot s = true) :
    decode s = utf8 "..".toList := by
  unfold isDoubleDot at h
  rw [List.contains_eq_mem, decide_eq_true_eq] at h
  have hall : ∀ s ∈ ["..".toList, ".%2e".toList, ".%2E".toList, "%2e.".toList, "%2E.".toList,
      "%2e%2e".toList, "%2e%2E".toList, "%2E%2e".toList, "%2E%2E".toList],
      decode s = utf8 "..".toList := by
    decide
  exact hall s h

/-- A text that is read as one segment, decoded to itself. -/
structure PlainSegment (cs : List Char) : Prop where
  plain : ∀ c ∈ cs, isPlain c = true
  noTabs : ∀ c ∈ cs, isTabOrNewline c = false
  head : ∀ c ∈ cs.head?, isControlOrSpace c = false
  noScheme : splitScheme cs = none
  noEscape : hasEscape cs = false
  notSingleDot : cs ≠ ".".toList
  notDoubleDot : cs ≠ "..".toList

section PlainSegment

variable {A O : Type} {cs : List Char}

theorem PlainSegment.of_all (hall : cs.all (fun c => isPlain c && !isTabOrNewline c) = true)
    (hhead : cs.head?.all (fun c => !isControlOrSpace c) = true) (hscheme : splitScheme cs = none)
    (hescape : hasEscape cs = false) (hsingle : cs ≠ ".".toList) (hdouble : cs ≠ "..".toList) :
    PlainSegment cs := by
  simp only [List.all_eq_true, Bool.and_eq_true, Bool.not_eq_true'] at hall
  refine ⟨fun c hc => (hall c hc).1, fun c hc => (hall c hc).2, fun c hc => ?_, hscheme, hescape,
    hsingle, hdouble⟩
  rw [Option.mem_def.mp hc] at hhead
  simpa using hhead

theorem pathState_append (h : ∀ c ∈ cs, isPlain c = true) (dir : List Segment) (buffer : Segment)
    (rest : List Char) :
    pathState dir buffer (cs ++ rest) = pathState dir (buffer ++ encode pathSet cs) rest := by
  induction cs generalizing buffer with
  | nil => simp [encode]
  | cons c cs ih =>
    have hc := h c List.mem_cons_self
    simp only [isPlain, Bool.and_eq_true, Bool.not_eq_true', bne_iff_ne] at hc
    rw [List.cons_append, pathState, if_neg (by simp [hc.1.1]), if_neg hc.1.2, if_neg hc.2,
      ih fun d hd => h d (List.mem_cons_of_mem c hd), encode_cons, List.append_assoc]

theorem dropWhile_slash (f : Char → Bool) (hf : f '/' = false) (cs : List Char) :
    (cs ++ ['/']).dropWhile f = cs.dropWhile f ++ ['/'] := by
  induction cs with
  | nil => simp [hf]
  | cons c cs ih =>
    cases hc : f c with
    | true => simp [hc, ih]
    | false => simp [hc]

/-- What is left of a text before a slash. -/
def trimmed (cs : List Char) : List Char :=
  (cs.dropWhile isControlOrSpace).filter fun c => !isTabOrNewline c

theorem trimmed_sublist (cs : List Char) : (trimmed cs).Sublist cs :=
  List.filter_sublist.trans (List.dropWhile_sublist isControlOrSpace)

/-- What comes before a slash at the end is trimmed at its beginning only. -/
theorem clean_slash (cs : List Char) : clean (cs ++ ['/']) = trimmed cs ++ ['/'] := by
  unfold clean
  rw [dropWhile_slash isControlOrSpace rfl, List.rdropWhile_concat_neg _ _ _ (by decide),
    List.filter_append]
  rfl

/-- A slash at the end changes nothing about the scheme. -/
theorem splitScheme_slash : splitScheme (cs ++ ['/']) = none ↔ splitScheme cs = none := by
  cases cs with
  | nil => exact iff_of_true rfl rfl
  | cons c cs =>
    rw [List.cons_append]
    dsimp only [splitScheme]
    rw [dropWhile_slash isSchemeChar (by decide)]
    split_ifs with halpha
    · cases cs.dropWhile isSchemeChar with
      | nil => exact iff_of_true rfl rfl
      | cons d rest =>
        rw [List.cons_append]
        by_cases hd : d = ':'
        · rw [hd]
          exact iff_of_false (by simp) (by simp)
        · exact iff_of_true (by simp [hd]) (by simp [hd])
    · rfl

theorem PlainSegment.noDots (hcs : PlainSegment cs) :
    isSingleDot (encode pathSet cs) = false ∧ isDoubleDot (encode pathSet cs) = false := by
  have hdecode : decode (encode pathSet cs) = utf8 cs :=
    (decode_encode keepsEscapes_pathSet cs).trans (decode_eq hcs.noEscape)
  constructor
  · apply Bool.eq_false_of_not_eq_true
    intro hdot
    exact hcs.notSingleDot (utf8_inj.mp (hdecode.symm.trans (decode_of_isSingleDot hdot)))
  · apply Bool.eq_false_of_not_eq_true
    intro hdot
    exact hcs.notDoubleDot (utf8_inj.mp (hdecode.symm.trans (decode_of_isDoubleDot hdot)))

theorem PlainSegment.clean_slash (hcs : PlainSegment cs) : clean (cs ++ ['/']) = cs ++ ['/'] := by
  have hdrop : cs.dropWhile isControlOrSpace = cs := by
    cases cs with
    | nil => rfl
    | cons c cs => simp [hcs.head c rfl]
  rw [Url.clean_slash, trimmed, hdrop,
    List.filter_eq_self.mpr fun c hc => by rw [hcs.noTabs c hc]; rfl]

theorem relativeState_plain (p : Parser A O) (u : HttpUrl A) (hcs : ∀ c ∈ cs, isPlain c = true)
    (hne : cs ≠ []) (rest : List Char) :
    relativeState p u (cs ++ rest) = some { pathState u.dir (encode pathSet cs) rest with
      scheme := u.scheme, authority := u.authority } := by
  have hpath := pathState_append hcs u.dir [] rest
  cases cs with
  | nil => exact absurd rfl hne
  | cons c cs =>
    have hc := hcs c List.mem_cons_self
    simp only [isPlain, Bool.and_eq_true, Bool.not_eq_true', bne_iff_ne] at hc
    rw [List.cons_append] at hpath ⊢
    dsimp only [relativeState]
    rw [if_neg (by simp [hc.1.1]), if_neg hc.1.2, if_neg hc.2, hpath, List.nil_append]

/-- Below the directory of the base. -/
theorem join_slash (p : Parser A O) (u : HttpUrl A) (hcs : PlainSegment cs) (hne : cs ≠ []) :
    join p (.http u) (cs ++ ['/']) = some (.http
      { u with dir := u.dir ++ [encode pathSet cs], last := [], query := none, fragment := none }) := by
  have hscheme := splitScheme_slash.mpr hcs.noScheme
  have hpath : pathState u.dir (encode pathSet cs) ['/'] =
      ⟨u.dir ++ [encode pathSet cs], [], none, none⟩ := by
    rw [pathState, if_pos (by decide), pushSegment, if_neg (by simp [hcs.noDots.2]),
      if_neg (by simp [hcs.noDots.1])]
    rfl
  unfold join
  dsimp only
  rw [hcs.clean_slash, hscheme]
  dsimp only
  rw [relativeState_plain p u hcs.plain hne ['/'], hpath]
  rfl

/-- A resource in the directory of the base. -/
theorem join_resource (p : Parser A O) (u : HttpUrl A) (hcs : PlainSegment cs) (hne : cs ≠ [])
    (hclean : clean cs = cs) :
    join p (.http u) cs = some (.http
      { u with last := encode pathSet cs, query := none, fragment := none }) := by
  have hpath : pathState u.dir (encode pathSet cs) [] =
      ⟨u.dir, encode pathSet cs, none, none⟩ := by
    rw [pathState, closePath, if_neg (by simp [hcs.noDots.2]), if_neg (by simp [hcs.noDots.1])]
  have hrelative := relativeState_plain p u hcs.plain hne []
  rw [List.append_nil, hpath] at hrelative
  unfold join
  dsimp only
  rw [hclean, hcs.noScheme]
  dsimp only
  rw [hrelative]
  rfl

/-- A text that is left as it is has nothing to trim or to drop. -/
theorem eq_trimmed (h : trimmed cs = cs) : (∀ c ∈ cs, isTabOrNewline c = false) ∧
    ∀ c ∈ cs.head?, isControlOrSpace c = false := by
  constructor
  · intro c hc
    rw [← h] at hc
    simpa using (List.mem_filter.mp hc).2
  · intro c hc
    cases cs with
    | nil => cases hc
    | cons d cs =>
      cases hc
      apply Bool.eq_false_of_not_eq_true
      intro hspace
      have hshort := (trimmed_sublist cs).length_le
      have hlen := congrArg List.length h
      unfold trimmed at hlen hshort
      rw [List.dropWhile_cons_of_pos hspace, List.length_cons] at hlen
      omega

/-- A segment made of what comes before a slash, as long as the text when decoded, is the text. -/
theorem MadeOf.eq_encode {r : List Char} {s : Segment} (h : MadeOf r s)
    (hr : r.Sublist (trimmed cs ++ ['/'])) (hs : decode s = utf8 cs) :
    s = encode pathSet cs ∧ trimmed cs = cs ∧ (∀ c ∈ cs, isPlain c = true) ∧ cs.Sublist r := by
  obtain ⟨piece, rfl, hpiece, hplain, -, -⟩ := h
  rw [decode_encode keepsEscapes_pathSet] at hs
  have hkept : piece.Sublist (trimmed cs) := by
    have hfilter := (hpiece.trans hr).filter isPlain
    have hslash : ['/'].filter isPlain = [] := rfl
    rw [List.filter_eq_self.mpr hplain, List.filter_append, hslash, List.append_nil] at hfilter
    exact hfilter.trans List.filter_sublist
  have hlength : ¬ piece.length < cs.length := by
    intro hlt
    have hshort := length_utf8_lt (hkept.trans (trimmed_sublist cs)) hlt
    have hdecode := (length_decode_le piece).1
    rw [hs] at hdecode
    omega
  obtain rfl : piece = cs :=
    (hkept.trans (trimmed_sublist cs)).eq_of_length_le (Nat.le_of_not_lt hlength)
  exact ⟨rfl, (trimmed_sublist piece).eq_of_length_le hkept.length_le, hplain, hpiece⟩

/-- No other text before a slash ends up as one segment below the directory of the base. -/
theorem plainSegment_of_join {p : Parser A O} {u v : HttpUrl A} {before after : List Segment}
    {s : Segment} (h : join p (.http u) (cs ++ ['/']) = some (.http v))
    (hdir : v.dir = before ++ s :: after) (hlen : u.dir.length ≤ before.length)
    (hs : decode s = utf8 cs) : PlainSegment cs := by
  rcases join_cases h with hsame | ⟨dir, r, hr, hgrown, hsub, hscheme⟩
  · have hlength := congrArg List.length (hdir.symm.trans hsame)
    simp only [List.length_append, List.length_cons] at hlength
    omega
  · rw [Path.segments, hdir, List.append_assoc] at hgrown
    have hmade : MadeOf r s := hgrown.madeOf (hr.trans hlen)
    rw [clean_slash] at hsub hscheme
    obtain ⟨rfl, htrimmed, hplain, hcs⟩ := hmade.eq_encode hsub hs
    obtain ⟨noTabs, head⟩ := eq_trimmed htrimmed
    obtain ⟨-, -, -, -, hsingle, hdouble⟩ := hmade
    rw [decode_encode keepsEscapes_pathSet] at hs
    rw [htrimmed] at hscheme
    have hlength := hcs.length_le
    refine ⟨hplain, noTabs, head, splitScheme_slash.mp (hscheme ?_), decode_eq_utf8_iff.mp hs,
      ?_, ?_⟩
    · rw [List.length_append]
      exact Nat.succ_le_succ hlength
    · rintro rfl
      cases hsingle
    · rintro rfl
      cases hdouble

end PlainSegment

end Url
