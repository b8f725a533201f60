import RelayerCore.AmplifierApi.Client
import RelayerCore.AmplifierApi.TxEvent
import RelayerCore.Lib.Url

/-!
# The URLs of requests (`amplifier-api/src/client/requests.rs`)

`GET /chains/{chain}/tasks` and `POST /chains/{chain}/events` go to URLs that are resolved three
times against the configured one: `chains/`, the name of the chain with a slash, and the resource.
A base without a slash at its end loses its last segment, and the name of the chain is read as a
reference, whatever it contains.
-/

namespace RelayerCore

open Url PercentCode

/-! ### Configuration -/

namespace Subscriber

/-- `char::is_whitespace`: the Unicode property `White_Space`. -/
def isWhitespace (c : Char) : Bool :=
  (0x09 ≤ c.toNat && c.toNat ≤ 0x0D) || (0x2000 ≤ c.toNat && c.toNat ≤ 0x200A) ||
    [0x20, 0x85, 0xA0, 0x1680, 0x2028, 0x2029, 0x202F, 0x205F, 0x3000].contains c.toNat

/-- `str::trim`. -/
def trim (cs : List Char) : List Char := (cs.dropWhile isWhitespace).rdropWhile isWhitespace

/-- The part of the subscriber's `Config` that is validated: the name of the chain. -/
structure Config where
  chain : String

/-- `Config::validate`. -/
def Config.validate (config : Config) : Except String Unit :=
  if (trim config.chain.toList).isEmpty then .error "chain could not be empty" else .ok ()

theorem Config.chain_ne_nil {config : Config} (h : config.validate = .ok ()) :
    config.chain.toList ≠ [] := by
  intro hnil
  rw [validate, hnil] at h
  cases h

end Subscriber

/-! ### `AmplifierApiRequest::path` -/

section Path

variable {A O : Type} (p : Url.Parser A O)

/-- `Url::join`, with the client's error. -/
def joinUrl (url : Resolved A O) (input : String) : Except AmplifierApiError (Resolved A O) :=
  match join p url input.toList with
  | some url => .ok url
  | none => .error .urlParse

/-- The joins that both requests begin with. -/
def joinChain (baseUrl : Resolved A O) (chain : WithTrailingSlash) (resource : String) :
    Except AmplifierApiError (Resolved A O) := do
  let url ← joinUrl p baseUrl "chains/"
  let url ← joinUrl p url chain.val
  joinUrl p url resource

/-- The pairs of the query: hyphenated ids and a decimal number. -/
def GetChains.queryPairs (request : GetChains) : List (List Char × List Char) :=
  (request.after.toList.map fun after => ("after".toList, after.hyphenated)) ++
    (request.before.toList.map fun before => ("before".toList, before.hyphenated)) ++
    request.limit.toList.map fun limit => ("limit".toList, (toString limit.toNat).toList)

def GetChains.path (request : GetChains) (baseUrl : Resolved A O) :
    Except AmplifierApiError (Resolved A O) := do
  let url ← joinChain p baseUrl request.chain "tasks"
  return appendPairs p url request.queryPairs

def PostEvents.path (request : PostEvents) (baseUrl : Resolved A O) :
    Except AmplifierApiError (Resolved A O) :=
  joinChain p baseUrl request.chain "events"

end Path

/-! ### URLs that name the chain -/

section NamesChain

variable {A O : Type} {p : Url.Parser A O} {base url : HttpUrl A} {chain resource : String}

/-- The segments of a configured path; a slash at its end is no segment. -/
def basePath (base : HttpUrl A) : List Segment :=
  if base.last = [] then base.dir else base.dir ++ [base.last]

/-- The URL is under the base, for a resource of the chain. -/
structure NamesChain (base : HttpUrl A) (chain resource : String) (url : HttpUrl A) : Prop where
  scheme : url.scheme = base.scheme
  authority : url.authority = base.authority
  dir : ∃ s, url.dir = basePath base ++ ["chains".toList, s] ∧ decode s = utf8 chain.toList
  last : url.last = resource.toList

/-- The request goes to a URL under the base, for a resource of the chain. -/
def GoesTo (base : HttpUrl A) (chain resource : String)
    (path : Except AmplifierApiError (Resolved A O)) : Prop :=
  ∃ url, path = .ok (.http url) ∧ NamesChain base chain resource url

/-- A path belongs to one chain. -/
theorem NamesChain.chain_eq {url' : HttpUrl A} {chain' : String}
    (h : NamesChain base chain resource url) (h' : NamesChain base chain' resource url')
    (hdir : url.dir = url'.dir) : chain = chain' := by
  obtain ⟨s, hs, hdecode⟩ := h.dir
  obtain ⟨s', hs', hdecode'⟩ := h'.dir
  rw [hs, hs'] at hdir
  have hseg : s = s' := by simpa using hdir
  apply String.toList_injective
  rw [← utf8_inj, ← hdecode, ← hdecode', hseg]

/-- The resources of the requests are plain. -/
theorem plain_resource : ∀ resource ∈ ["chains".toList, "tasks".toList, "events".toList],
    PlainSegment resource ∧ resource ≠ [] ∧ clean resource = resource ∧
      encode pathSet resource = resource := by
  intro resource hresource
  simp only [List.mem_cons, List.not_mem_nil, or_false] at hresource
  rcases hresource with rfl | rfl | rfl
  all_goals
    exact ⟨.of_all (by decide) (by decide) (by decide) (by decide) (by decide) (by decide),
      by decide, by decide, by decide⟩

/-- The URL the first join gives. -/
def chainsUrl (base : HttpUrl A) : HttpUrl A :=
  { base with dir := base.dir ++ ["chains".toList], last := [], query := none, fragment := none }

theorem joinUrl_chains (p : Url.Parser A O) (base : HttpUrl A) :
    joinUrl p (.http base) "chains/" = .ok (.http (chainsUrl base)) := by
  obtain ⟨hplain, hne, -, hencode⟩ := plain_resource "chains".toList (by simp)
  have hjoin := join_slash p base hplain hne
  rw [hencode] at hjoin
  have hslash : "chains/".toList = "chains".toList ++ ['/'] := by decide
  unfold joinUrl
  rw [hslash, hjoin]
  rfl

theorem joinUrl_resource (p : Url.Parser A O) (url : HttpUrl A)
    (hresource : resource.toList ∈ ["chains".toList, "tasks".toList, "events".toList]) :
    joinUrl p (.http url) resource =
      .ok (.http { url with last := resource.toList, query := none, fragment := none }) := by
  obtain ⟨hplain, hne, hclean, hencode⟩ := plain_resource _ hresource
  have hjoin := join_resource p url hplain hne hclean
  rw [hencode] at hjoin
  unfold joinUrl
  rw [hjoin]

/-- A resource of a URL with another scheme is no http URL. -/
theorem joinUrl_other {o : O}
    (hresource : resource.toList ∈ ["chains".toList, "tasks".toList, "events".toList]) :
    joinUrl p (.other o) resource ≠ .ok (.http url) := by
  obtain ⟨hplain, -, hclean, -⟩ := plain_resource _ hresource
  unfold joinUrl join
  dsimp only
  rw [hclean, hplain.noScheme]
  cases p.joinOther o resource.toList with
  | none => simp
  | some o' => simp

theorem toList_withTrailingSlash (chain : String) :
    (WithTrailingSlash.new chain).val.toList = chain.toList ++ ['/'] := by
  simp [WithTrailingSlash.new]

/-- The chain's URL is the directory of the resource. -/
theorem joinChain_eq_ok (hresource : resource.toList ∈
      ["chains".toList, "tasks".toList, "events".toList])
    (h : joinChain p (.http base) (.new chain) resource = .ok (.http url)) :
    ∃ v, join p (.http (chainsUrl base)) (chain.toList ++ ['/']) = some (.http v) ∧
      v.dir = url.dir := by
  unfold joinChain at h
  rw [joinUrl_chains] at h
  change (joinUrl p (.http (chainsUrl base)) _ >>= _) = _ at h
  unfold joinUrl at h
  rw [toList_withTrailingSlash] at h
  cases hchain : join p (.http (chainsUrl base)) (chain.toList ++ ['/']) with
  | none =>
    rw [hchain] at h
    cases h
  | some v =>
    rw [hchain] at h
    change joinUrl p v resource = _ at h
    cases v with
    | other o => exact absurd h (joinUrl_other hresource)
    | http v =>
      rw [joinUrl_resource p v hresource] at h
      cases h
      exact ⟨v, rfl, rfl⟩

/-- Both requests go where they should exactly when the base ends in a slash and the name of the
chain is read as one segment. -/
theorem goesTo_joinChain_iff (hne : chain.toList ≠ []) (hresource : resource.toList ∈
      ["chains".toList, "tasks".toList, "events".toList]) :
    GoesTo base chain resource (joinChain p (.http base) (.new chain) resource) ↔
      base.last = [] ∧ PlainSegment chain.toList := by
  constructor
  · rintro ⟨url, hpath, hurl⟩
    obtain ⟨s, hdir, hs⟩ := hurl.dir
    obtain ⟨v, hjoin, hv⟩ := joinChain_eq_ok hresource hpath
    have hsplit : v.dir = (basePath base ++ ["chains".toList]) ++ [s] := by
      rw [hv, hdir, List.append_assoc]
      rfl
    have hlen : (chainsUrl base).dir.length ≤ (basePath base ++ ["chains".toList]).length := by
      unfold chainsUrl basePath
      split_ifs <;> simp
    have hplain := plainSegment_of_join hjoin hsplit hlen hs
    rw [join_slash p _ hplain hne] at hjoin
    cases hjoin
    refine ⟨?_, hplain⟩
    by_contra hlast
    -- the last segment of the base is missing
    have hlength := congrArg List.length hsplit
    unfold chainsUrl basePath at hlength
    rw [if_neg hlast] at hlength
    simp at hlength
  · rintro ⟨hlast, hplain⟩
    have hdecode : decode (encode pathSet chain.toList) = utf8 chain.toList :=
      (decode_encode keepsEscapes_pathSet _).trans (decode_eq hplain.noEscape)
    have hjoin := join_slash p (chainsUrl base) hplain hne
    unfold joinChain
    rw [joinUrl_chains]
    change GoesTo base chain resource (joinUrl p (.http (chainsUrl base)) _ >>= _)
    unfold joinUrl
    rw [toList_withTrailingSlash, hjoin]
    change GoesTo base chain resource (joinUrl p _ resource)
    rw [joinUrl_resource p _ hresource]
    refine ⟨_, rfl, rfl, rfl, ⟨_, ?_, hdecode⟩, rfl⟩
    simp [chainsUrl, basePath, hlast]

/-- The query does not matter. -/
theorem goesTo_appendPairs {path : Except AmplifierApiError (Resolved A O)}
    {pairs : List (List Char × List Char)} :
    GoesTo base chain resource (path.map fun url => appendPairs p url pairs) ↔
      GoesTo base chain resource path := by
  constructor
  · rintro ⟨url, hpath, hurl⟩
    match path with
    | .error err => cases hpath
    | .ok (.other o) => cases hpath
    | .ok (.http url') =>
      cases hpath
      exact ⟨url', rfl, hurl.scheme, hurl.authority, hurl.dir, hurl.last⟩
  · rintro ⟨url, rfl, hurl⟩
    exact ⟨_, rfl, hurl.scheme, hurl.authority, hurl.dir, hurl.last⟩

/-- Both requests for a validated chain go to its resources under the base exactly when the base
ends in a slash and the name of the chain is read as one segment; the paths of two chains with such
requests are different. -/
theorem names_chain_iff (p : Url.Parser A O) (base : HttpUrl A) (chain : String)
    (hvalid : (Subscriber.Config.mk chain).validate = .ok ()) :
    ((∀ after before limit, GoesTo base chain "tasks"
        ((GetChains.mk (.new chain) after before limit).path p (.http base))) ∧
      (∀ payload, GoesTo base chain "events"
        ((PostEvents.mk (.new chain) payload).path p (.http base))) ↔
      base.last = [] ∧ PlainSegment chain.toList) ∧
    ∀ chain' resource url url', chain ≠ chain' → NamesChain base chain resource url →
      NamesChain base chain' resource url' → url.dir ≠ url'.dir := by
  have hne := Subscriber.Config.chain_ne_nil hvalid
  have htasks : ∀ after before limit, GoesTo base chain "tasks"
      ((GetChains.mk (.new chain) after before limit).path p (.http base)) ↔
        base.last = [] ∧ PlainSegment chain.toList := by
    intro after before limit
    exact goesTo_appendPairs.trans (goesTo_joinChain_iff hne (by simp))
  have hevents : ∀ payload, GoesTo base chain "events"
      ((PostEvents.mk (.new chain) payload).path p (.http base)) ↔
        base.last = [] ∧ PlainSegment chain.toList :=
    fun _ => goesTo_joinChain_iff hne (by simp)
  refine ⟨⟨fun h => (htasks none none none).mp (h.1 none none none), fun h => ⟨?_, ?_⟩⟩, ?_⟩
  · exact fun after before limit => (htasks after before limit).mpr h
  · exact fun payload => (hevents payload).mpr h
  · intro chain' resource url url' hchain hurl hurl' hdir
    exact hchain (hurl.chain_eq hurl' hdir)

end NamesChain

/-- A parser that takes every host as it is. -/
def hostParser : Url.Parser (List Char) (List Char) where
  parseAuthority _ host := if host = [] then none else some host
  parseOther := some
  joinOther _ := some
  appendPairs url _ := url

/-- `https://example.com/api/`. -/
def apiBase : HttpUrl (List Char) :=
  ⟨⟨["api".toList], [], none, none⟩, .https, "example.com".toList⟩

theorem names_chain_solana_devnet :
    ((∀ after before limit, GoesTo apiBase "solana-devnet" "tasks"
        ((GetChains.mk (.new "solana-devnet") after before limit).path hostParser
          (.http apiBase))) ∧
      (∀ payload, GoesTo apiBase "solana-devnet" "events"
        ((PostEvents.mk (.new "solana-devnet") payload).path hostParser (.http apiBase))) ↔
      apiBase.last = [] ∧ PlainSegment "solana-devnet".toList) ∧
    ∀ chain' resource url url', "solana-devnet" ≠ chain' →
      NamesChain apiBase "solana-devnet" resource url →
      NamesChain apiBase chain' resource url' → url.dir ≠ url'.dir :=
  names_chain_iff hostParser apiBase "solana-devnet" (by decide)

/-- With the base `https://example.com/api`, events go to `/chains/solana-devnet/events`. -/
theorem last_segment_lost :
    (Subscriber.Config.mk "solana-devnet").validate = .ok () ∧
    (PostEvents.mk (.new "solana-devnet") ⟨[]⟩).path hostParser
      (.http { apiBase with dir := [], last := "api".toList }) = .ok (.http
        { apiBase with dir := ["chains".toList, "solana-devnet".toList],
                       last := "events".toList }) ∧
    ¬ GoesTo { apiBase with dir := [], last := "api".toList } "solana-devnet" "events"
      ((PostEvents.mk (.new "solana-devnet") ⟨[]⟩).path hostParser
        (.http { apiBase with dir := [], last := "api".toList })) := by
  have hpath : (PostEvents.mk (.new "solana-devnet") ⟨[]⟩).path hostParser
      (.http { apiBase with dir := [], last := "api".toList }) = .ok (.http
        { apiBase with dir := ["chains".toList, "solana-devnet".toList],
                       last := "events".toList }) := rfl
  refine ⟨by decide, hpath, ?_⟩
  rintro ⟨url, hurl, hnames⟩
  rw [hpath] at hurl
  cases hurl
  obtain ⟨s, hdir, -⟩ := hnames.dir
  have hlen := congrArg List.length hdir
  simp [basePath] at hlen

end RelayerCore
