import TradingBot.Exchange.SandboxGuard
import TradingBot.ForMathlib.Infix

/-!
# What the guard of the sandbox exchange lets through

The guard prints the endpoints of a client into one text and looks for a marker anywhere in
it. No marker runs across what separates the parts of the text, so a table passes exactly
when a marker occurs in one of its endpoints or in a name of a nested table. One endpoint of
a testnet is enough, whatever the others are.
-/

namespace TradingBot

open Python

/-! ## Endpoints of a testnet -/

/-- What follows the scheme of a URL. -/
def afterScheme : Text → Text
  | ':' :: '/' :: '/' :: rest => rest
  | _ :: rest => afterScheme rest
  | [] => []

/-- The host of a URL, without a user and a port. -/
def urlHost (url : String) : Text :=
  let authority := (afterScheme url.toList).takeWhile fun c => c ∉ ['/', '?', '#']
  ((authority.splitOn '@').getLastD []).takeWhile (· ≠ ':')

/-- The host of a URL has a label that names a testnet. -/
def IsTestnetUrl (url : String) : Prop :=
  ∃ label ∈ ((urlHost url).map Char.toLower).splitOn '.',
    label ∈ ["testnet".toList, "sandbox".toList, "test".toList, "demo".toList]

instance (url : String) : Decidable (IsTestnetUrl url) :=
  inferInstanceAs (Decidable (∃ label ∈ _, _))

namespace UrlTable

mutual

/-- The endpoints of a table at every depth. -/
def endpoints : UrlTable → List String
  | url u => [u]
  | table entries => endpointsOf entries

def endpointsOf : List (String × UrlTable) → List String
  | [] => []
  | (_, value) :: entries => endpoints value ++ endpointsOf entries

end

/-- Every endpoint is one of a testnet. -/
def AllTestnet (api : UrlTable) : Prop := ∀ url ∈ api.endpoints, IsTestnetUrl url

instance (api : UrlTable) : Decidable api.AllTestnet :=
  inferInstanceAs (Decidable (∀ url ∈ _, _))

/-! ## The texts that are printed -/

section Texts

variable (t : CharTables)

mutual

/-- The names and the endpoints that `repr` prints. -/
def reprTexts : UrlTable → List Text
  | url u => [Python.repr t u.toList]
  | table entries => reprEntriesTexts entries

def reprEntriesTexts : List (String × UrlTable) → List Text
  | [] => []
  | (name, value) :: entries =>
    Python.repr t name.toList :: (reprTexts value ++ reprEntriesTexts entries)

end

/-- The names and the endpoints that `str` prints. -/
def strTexts : UrlTable → List Text
  | url u => [u.toList]
  | table entries => (table entries).reprTexts t

/-- The texts in which the guard finds its markers: the endpoints, and the names in nested
    tables. -/
def texts (api : UrlTable) : List Text := api.candidates.flatMap (·.strTexts t)

end Texts

/-- A word that has nothing of what separates the texts. -/
structure Separated (w : Text) : Prop where
  nonempty : w ≠ []
  disjoint : ∀ c ∈ "\x7b\x7d:, ".toList, c ∉ w

variable {t : CharTables} {w : Text}

/-- A separated word lies in a glued text when it lies in one of its parts. -/
private theorem Separated.infix_lower_append_iff (hw : Separated w) {s : Text} (hs : s ≠ [])
    (hlower : isLower s = true) (hsub : s ⊆ "\x7b\x7d:, ".toList) (a b : Text) :
    w <:+: lower t (a ++ s ++ b) ↔ w <:+: lower t a ∨ w <:+: lower t b := by
  rw [lower_append, lower_append, lower_eq_self t hlower]
  exact List.infix_append_append_iff hs fun c hc => hw.disjoint c (hsub hc)

/-- A word is not part of the empty text. -/
private theorem Separated.not_infix_nil (hw : Separated w) : ¬w <:+: [] := fun h =>
  hw.nonempty (List.infix_nil.mp h)

/-- A word without braces is within the braces or nowhere. -/
private theorem infix_lower_braced (hw : Separated w) (inner : Text) :
    w <:+: lower t ("\x7b".toList ++ inner ++ "\x7d".toList) ↔ w <:+: lower t inner := by
  have hopen := hw.infix_lower_append_iff (t := t) (s := "\x7b".toList) (by decide) rfl
    (by decide) [] (inner ++ "\x7d".toList)
  have hclose := hw.infix_lower_append_iff (t := t) (s := "\x7d".toList) (by decide) rfl
    (by decide) inner []
  have hnil : ¬w <:+: lower t [] := hw.not_infix_nil
  rw [List.nil_append, or_iff_right hnil, ← List.append_assoc] at hopen
  rw [List.append_nil, or_iff_left hnil] at hclose
  exact hopen.trans hclose

mutual

/-- A word without separators occurs in what `repr` prints exactly where it occurs in one of the
    printed texts. -/
theorem infix_repr_iff (hw : Separated w) : ∀ api : UrlTable,
    w <:+: lower t (api.repr t) ↔ ∃ text ∈ api.reprTexts t, w <:+: lower t text
  | url u => by simp [repr, reprTexts]
  | table entries => by
    rw [repr, infix_lower_braced hw, infix_reprEntries_iff hw entries, reprTexts]

/-- The same for the entries of a table. -/
theorem infix_reprEntries_iff (hw : Separated w) : ∀ entries : List (String × UrlTable),
    w <:+: lower t (reprEntries t entries) ↔
      ∃ text ∈ reprEntriesTexts t entries, w <:+: lower t text
  | [] => by
    have hnil : ¬w <:+: lower t [] := hw.not_infix_nil
    simp [reprEntries, reprEntriesTexts, hnil]
  | [(name, value)] => by
    rw [reprEntries, hw.infix_lower_append_iff (by decide) rfl (by decide),
      infix_repr_iff hw value]
    simp [reprEntriesTexts]
  | (name, value) :: entry :: entries => by
    rw [reprEntries, hw.infix_lower_append_iff (by decide) rfl (by decide),
      hw.infix_lower_append_iff (by decide) rfl (by decide), infix_repr_iff hw value,
      infix_reprEntries_iff hw (entry :: entries)]
    simp [reprEntriesTexts, or_and_right, exists_or, or_assoc]

end

/-- The same for what `str` prints, which shows an endpoint without quotes. -/
theorem infix_str_iff (hw : Separated w) (candidate : UrlTable) :
    w <:+: lower t (candidate.str t) ↔ ∃ text ∈ candidate.strTexts t, w <:+: lower t text := by
  cases candidate with
  | url u => simp [str, strTexts]
  | table entries => exact infix_repr_iff hw (table entries)

/-- A marker occurs in a text of the table. -/
def Marked (t : CharTables) (api : UrlTable) : Prop :=
  ∃ text ∈ api.texts t, ∃ marker ∈ CcxtSandboxExchange.markers, marker.toList <:+: lower t text

end UrlTable

namespace CcxtSandboxExchange

variable {t : CharTables}

/-- The markers of the guard are such words. -/
theorem separated_of_mem_markers {marker : String} (h : marker ∈ markers) :
    UrlTable.Separated marker.toList := by
  have hall : markers.all (fun marker => !marker.toList.isEmpty &&
      "\x7b\x7d:, ".toList.all fun c => !marker.toList.contains c) = true := by
    decide
  have hmarker := List.all_eq_true.mp hall marker h
  rw [Bool.and_eq_true, List.all_eq_true] at hmarker
  exact ⟨by simpa using hmarker.1, by simpa using hmarker.2⟩

/-- The guard is content with a table exactly when a marker occurs in one of its texts. -/
theorem urlsLookLikeATestnet_iff (api : UrlTable) :
    urlsLookLikeATestnet t api = true ↔ api.Marked t := by
  -- a marker has no blank, so it is within one of the joined texts
  have hmarker : ∀ marker ∈ markers,
      (marker.toList <:+: lower t (" ".toList.intercalate (api.candidates.map (·.str t))) ↔
        ∃ text ∈ api.texts t, marker.toList <:+: lower t text) := by
    intro marker hmem
    have hw := separated_of_mem_markers hmem
    have hsub : " ".toList ⊆ "\x7b\x7d:, ".toList := by decide
    have hspace : " ".toList.Disjoint marker.toList := fun c hc => hw.disjoint c (hsub hc)
    rw [lower_intercalate, lower_eq_self t rfl,
      List.infix_intercalate_iff (by decide) hspace hw.nonempty]
    constructor
    · rintro ⟨_, hpart, hin⟩
      obtain ⟨_, hprinted, rfl⟩ := List.mem_map.mp hpart
      obtain ⟨candidate, hcandidate, rfl⟩ := List.mem_map.mp hprinted
      obtain ⟨text, htext, hin⟩ := (UrlTable.infix_str_iff hw candidate).mp hin
      exact ⟨text, List.mem_flatMap.mpr ⟨candidate, hcandidate, htext⟩, hin⟩
    · rintro ⟨text, htext, hin⟩
      obtain ⟨candidate, hcandidate, htext⟩ := List.mem_flatMap.mp htext
      exact ⟨_, List.mem_map_of_mem (List.mem_map_of_mem hcandidate),
        (UrlTable.infix_str_iff hw candidate).mpr ⟨text, htext, hin⟩⟩
  unfold urlsLookLikeATestnet
  simp only [List.any_eq_true, decide_eq_true_eq]
  constructor
  · rintro ⟨marker, hmem, hin⟩
    obtain ⟨text, htext, hin⟩ := (hmarker marker hmem).mp hin
    exact ⟨text, htext, marker, hmem, hin⟩
  · rintro ⟨text, htext, marker, hmem, hin⟩
    exact ⟨marker, hmem, (hmarker marker hmem).mpr ⟨text, htext, hin⟩⟩

/-- The guard fails closed on exactly those tables that have endpoints of a testnet only, or
    no marker anywhere: on those the constructor succeeds only if every endpoint is one of a
    testnet, and refuses a table with any other endpoint. -/
theorem guard_fails_closed_iff {ccxt : CcxtLibrary} {exchangeId : String} {api : UrlTable}
    (hclient : ccxt exchangeId = some (.ok api)) (sandbox : Bool) :
    ((∀ client, SandboxClient.create t ccxt exchangeId sandbox = .ok client →
          api.AllTestnet) ∧
        (¬api.AllTestnet → ∃ message, SandboxClient.create t ccxt exchangeId sandbox =
          .error (.sandboxGuardError message))) ↔
      sandbox = false ∨ api.AllTestnet ∨ ¬api.Marked t := by
  rw [← urlsLookLikeATestnet_iff]
  unfold SandboxClient.create
  cases sandbox with
  | false => simp
  | true =>
    by_cases hlooks : urlsLookLikeATestnet t api = true
    · simp [hclient, hlooks]
    · simp [hclient, hlooks]

end CcxtSandboxExchange

/-! ## One endpoint of a testnet among live ones -/

/-- A library that has one exchange. -/
def libraryOf (api : UrlTable) : CcxtLibrary := fun exchangeId =>
  if exchangeId = "binance" then some (.ok api) else none

/-- A client whose private endpoint did not switch. -/
def halfSwitched : UrlTable :=
  .table [("public", .url "https://testnet.binance.vision/api/v3"),
    ("private", .url "https://api.binance.com/api/v3")]

/-- A client that switched. -/
def switched : UrlTable :=
  .table [("public", .url "https://testnet.binance.vision/api/v3"),
    ("private", .url "https://testnet.binance.vision/api/v3")]

/-- A client with endpoints of a testnet only is accepted as such. -/
theorem guard_fails_closed_iff_switched :
    (∀ client, SandboxClient.create .ascii (libraryOf switched) "binance" true = .ok client →
        switched.AllTestnet) ∧
      (¬switched.AllTestnet →
        ∃ message, SandboxClient.create .ascii (libraryOf switched) "binance" true =
          .error (.sandboxGuardError message)) :=
  (CcxtSandboxExchange.guard_fails_closed_iff rfl true).mpr (.inr (.inl (by decide +kernel)))

/-- The constructor accepts a client with an endpoint that is live. -/
theorem halfSwitched_accepted : (∃ client : SandboxClient .ascii,
      SandboxClient.create .ascii (libraryOf halfSwitched) "binance" true = .ok client) ∧
    "https://api.binance.com/api/v3" ∈ halfSwitched.endpoints ∧
    ¬IsTestnetUrl "https://api.binance.com/api/v3" ∧ ¬halfSwitched.AllTestnet := by
  refine ⟨?_, by decide +kernel, by decide +kernel, by decide +kernel⟩
  have hlooks : CcxtSandboxExchange.urlsLookLikeATestnet .ascii halfSwitched = true := by
    decide +kernel
  exact ⟨⟨"binance", halfSwitched, hlooks⟩, by simp [SandboxClient.create, libraryOf, hlooks]⟩

end TradingBot
