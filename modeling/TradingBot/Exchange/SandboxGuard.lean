import TradingBot.Exchange.CcxtSandbox
import TradingBot.Python.Text

/-!
# The guard of the sandbox exchange

The constructor asks the client of the third-party library to switch to the sandbox and then
looks at its endpoints. The library is a parameter: for each exchange id that it knows, the
endpoints of a client that was told to switch.
-/

namespace TradingBot

open Python

/-- `urls["api"]` of a client: one endpoint, or endpoints under names, at any depth. -/
inductive UrlTable where
  | url (url : String)
  | table (entries : List (String × UrlTable))

namespace UrlTable

section Print

variable (t : CharTables)

mutual

/-- `repr` of a table or of an endpoint in it. -/
def repr : UrlTable → Text
  | url u => Python.repr t u.toList
  | table entries => "\x7b".toList ++ reprEntries entries ++ "\x7d".toList

def reprEntries : List (String × UrlTable) → Text
  | [] => []
  | [(name, value)] => Python.repr t name.toList ++ ": ".toList ++ repr value
  | (name, value) :: entry :: entries =>
    Python.repr t name.toList ++ ": ".toList ++ repr value ++ ", ".toList ++
      reprEntries (entry :: entries)

end

/-- `str`: an endpoint is printed without quotes when it is not in a table. -/
def str : UrlTable → Text
  | url u => u.toList
  | table entries => (table entries).repr t

end Print

/-- `urls.values() if isinstance(urls, dict) else [urls]`. -/
def candidates : UrlTable → List UrlTable
  | url u => [url u]
  | table entries => entries.map Prod.snd

end UrlTable

/-- The client library: the endpoints of a client that was told to switch to the sandbox,
    by exchange id. Building the client or switching it may raise. -/
abbrev CcxtLibrary := String → Option (Except ClientError UrlTable)

namespace CcxtSandboxExchange

def markers : List String := ["testnet", "sandbox", "test.", "demo"]

/-- `_urls_look_like_a_testnet`. -/
def urlsLookLikeATestnet (t : CharTables) (api : UrlTable) : Bool :=
  let flattened := lower t (" ".toList.intercalate (api.candidates.map (·.str t)))
  markers.any fun marker => marker.toList <:+: flattened

end CcxtSandboxExchange

/-- A client that passed the guard. -/
structure SandboxClient (t : CharTables) where
  exchangeId : String
  api : UrlTable
  guarded : CcxtSandboxExchange.urlsLookLikeATestnet t api = true

namespace SandboxClient

variable {t : CharTables}

/-- The constructor of the sandbox exchange. -/
def create (t : CharTables) (ccxt : CcxtLibrary) (exchangeId : String) (sandbox : Bool) :
    Except Error (SandboxClient t) :=
  if !sandbox then
    .error (.sandboxGuardError "CcxtSandboxExchange cannot be constructed outside sandbox mode")
  else
    match ccxt exchangeId with
    | none =>
      .error (.exchangeError
        ("unknown ccxt exchange: " ++ String.ofList (Python.repr t exchangeId.toList)))
    | some (.error error) => .error (.external error.typeName error.message)
    | some (.ok api) =>
      if h : CcxtSandboxExchange.urlsLookLikeATestnet t api = true then
        .ok ⟨exchangeId, api, h⟩
      else
        .error (.sandboxGuardError
          (exchangeId ++ " did not switch to testnet endpoints after set_sandbox_mode"))

def name (client : SandboxClient t) : String := "ccxt_sandbox_" ++ client.exchangeId

end SandboxClient

end TradingBot
