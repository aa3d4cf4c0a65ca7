import DexServer.Services.Market

/-!
# Creating a pair over HTTP (`endpoints/pair.go`)
-/

namespace Dex

/-- The answer to a request. -/
inductive PairResponse
  /-- `WriteJSON(w, http.StatusCreated, p)` -/
  | created (p : PairValue)
  /-- `WriteError(w, code, message)` -/
  | error (code : Nat) (message : String)

/-- The fields that `Pair.Validate` finds blank. An address is an array, which is never empty, so
that `Required` accepts every one. -/
def PairValue.blank (p : PairValue) : List String :=
  (if p.baseTokenSymbol = "" then ["baseTokenSymbol"] else []) ++
    if p.quoteTokenSymbol = "" then ["quoteTokenSymbol"] else []

/-- `Pair.Validate`. -/
def PairValue.validate (p : PairValue) : Except String Unit :=
  match p.blank with
  | [] => .ok ()
  | fields => .error ("; ".intercalate (fields.map (· ++ ": cannot be blank")) ++ ".")

/-- The answer to an error of `PairService.Create`. -/
def PairError.response : PairError → PairResponse
  | store => .error 500 ""
  | pairExists => .error 400 "Pair exists"
  | baseTokenNotFound => .error 400 "Base token not found"
  | quoteTokenNotFound => .error 400 "Quote token not found"
  | quoteTokenInvalid => .error 400 "Quote token invalid (token is not registered as quote"

/-- `HandleCreatePair`; the body of the request may not be JSON. A panic of the decoder is one of
the handler. -/
def handleCreatePair (c : Codec) (calls : PairCalls) (body : Option Json) (m : Market) :
    Except String PairResponse × Market :=
  match body.map (PairValue.zero.unmarshalJSON c.eth) with
  | none => (.ok (.error 400 "Invalid payload"), m)
  | some (.error (.panic msg)) => (.error msg, m)
  | some (.error _) => (.ok (.error 400 "Invalid payload"), m)
  | some (.ok p) =>
    match p.validate with
    | .error err => (.ok (.error 400 err), m)
    | .ok () =>
      match m.create c calls p with
      | (.error err, m) => (.ok err.response, m)
      | (.ok p, m) => (.ok (.created p), m)

end Dex
