import DexServer.Daos.Document

/-!
# Token balances (`types/account.go`, `daos/account.go`)

An account is stored with the balances of its tokens, a document under the text of each token. The
updates write single fields of these documents, named by paths; `GetBSON` and `SetBSON` name them by
the tags of `TokenBalanceRecord`, of which one is misspelt: its field is stored under its own name
in lower case.

The collection is a list of documents, in which an account is found by the text of its address.
-/

namespace Dex

open Lib

/-! ## Accounts -/

/-- `TokenBalance`; a number may be nil. -/
structure TokenBalance where
  address : Address
  symbol : String
  balance : Option Int
  allowance : Option Int
  pendingBalance : Option Int
  lockedBalance : Option Int
  deriving DecidableEq, Repr

/-- `Account`, with its token balances: a map, each token once. The times are not stored. -/
structure RawAccount where
  address : Address
  tokenBalances : List (Address × TokenBalance)
  tokens_nodup : (tokenBalances.map Prod.fst).Nodup
  isBlocked : Bool

def RawAccount.tokens (a : RawAccount) : List Address := a.tokenBalances.map Prod.fst

/-- The fields of the `TokenBalanceRecord` that `GetBSON` makes. -/
def TokenBalance.fields (eth : Eth) (b : TokenBalance) : Fields Bson :=
  [("address", .str (eth.hex b.address)),
   ("symbol", .str b.symbol),
   ("balance", .str (bigString b.balance)),
   ("allowance", .str (bigString b.allowance)),
   ("pendingbalance", .str (bigString b.pendingBalance)),
   ("lockedBalance", .str (bigString b.lockedBalance))]

/-- A `bool`. -/
def Bson.bool (b : Bool) : Bson := .other 8 [if b then 1 else 0]

/-- `Account.GetBSON`, as it is stored under `id`; the times of the record are not set. -/
def RawAccount.document (eth : Eth) (id : ObjectId) (a : RawAccount) : Fields Bson :=
  [("_id", .objectId id),
   ("address", .str (eth.hex a.address)),
   ("tokenBalances", .doc (a.tokenBalances.map fun b => (eth.hex b.1, .doc (b.2.fields eth)))),
   ("isBlocked", .bool a.isBlocked),
   ("createdAt", .datetime (Time.toBSON 0)),
   ("updatedAt", .datetime (Time.toBSON 0))]

/-- A token's balance, as `SetBSON` reads its record: a text that is no number gives nil. -/
def TokenBalance.ofFields (eth : Eth) (d : Fields Bson) : TokenBalance where
  address := eth.hexToAddress (Bson.text (d.get "address"))
  symbol := Bson.text (d.get "symbol")
  balance := setString (Bson.text (d.get "balance"))
  allowance := setString (Bson.text (d.get "allowance"))
  pendingBalance := setString (Bson.text (d.get "pendingbalance"))
  lockedBalance := setString (Bson.text (d.get "lockedBalance"))

/-- The record of a value that is no document is empty. -/
def TokenBalance.ofBson (eth : Eth) : Bson → TokenBalance
  | .doc d => ofFields eth d
  | _ => ofFields eth []

/-- The fields of a document that is a value. -/
def Bson.fields : Option Bson → Fields Bson
  | some (.doc d) => d
  | _ => []

/-- The token balances that `Account.SetBSON` makes of the field `tokenBalances`. -/
def readBalances (eth : Eth) (m : Fields Bson) : List (Address × TokenBalance) :=
  m.map fun p => (eth.hexToAddress p.1, .ofBson eth p.2)

/-! ## The collection -/

/-- `$set` of the value at a path: documents that are missing on the way are made. -/
def Bson.setPath (v : Bson) : List String → Bson → Except Err Bson
  | [], _ => .ok v
  | k :: ks, .doc d => do
    let b ← setPath v ks ((Fields.get d k).getD (.doc []))
    .ok (.doc (Fields.set k b d))
  | _ :: _, _ => .error .io

/-- The fields after a `$set` of several paths. -/
def setPaths (paths : List (List String × Bson)) (d : Fields Bson) : Except Err (Fields Bson) := do
  let b ← paths.foldlM (fun b p => Bson.setPath p.2 p.1 b) (.doc d)
  .ok (Bson.fields (some b))

namespace Accounts

/-- Is this the account with the address of this text? -/
def HasAddress (address : String) (d : Fields Bson) : Prop :=
  Bson.text (Fields.get d "address") = address

instance (address : String) (d : Fields Bson) : Decidable (HasAddress address d) :=
  inferInstanceAs (Decidable (_ = _))

def find (address : String) (docs : List (Fields Bson)) : Option (Fields Bson) :=
  docs.find? (HasAddress address)

/-- `AccountDao.Create`: the address has a unique index. -/
def create (eth : Eth) (id : ObjectId) (a : RawAccount) (docs : List (Fields Bson)) :
    Except Err (List (Fields Bson)) :=
  if (find (eth.hex a.address) docs).isSome then .error .io else .ok (docs ++ [a.document eth id])

/-- `db.Update` of the account with an address. -/
def update (address : String) (paths : List (List String × Bson)) :
    List (Fields Bson) → Except Err (List (Fields Bson))
  | [] => .error .notFound
  | d :: docs =>
    if HasAddress address d then do
      let d ← setPaths paths d
      .ok (d :: docs)
    else do
      let docs ← update address paths docs
      .ok (d :: docs)

/-- The path of a field of a token. -/
def path (eth : Eth) (token : Address) (key : String) : List String :=
  ["tokenBalances", eth.hex token, key]

/-- `UpdateTokenBalance`. -/
def updateTokenBalance (eth : Eth) (owner token : Address) (b : TokenBalance) :
    List (Fields Bson) → Except Err (List (Fields Bson)) :=
  update (eth.hex owner)
    [(path eth token "balance", .str (bigString b.balance)),
     (path eth token "allowance", .str (bigString b.allowance)),
     (path eth token "lockedBalance", .str (bigString b.lockedBalance)),
     (path eth token "pendingBalance", .str (bigString b.pendingBalance))]

/-- `UpdateBalance`. -/
def updateBalance (eth : Eth) (owner token : Address) (balance : Option Int) :
    List (Fields Bson) → Except Err (List (Fields Bson)) :=
  update (eth.hex owner) [(path eth token "balance", .str (bigString balance))]

/-- `UpdateAllowance`. -/
def updateAllowance (eth : Eth) (owner token : Address) (allowance : Option Int) :
    List (Fields Bson) → Except Err (List (Fields Bson)) :=
  update (eth.hex owner) [(path eth token "allowance", .str (bigString allowance))]

/-- `GetTokenBalances`: nil if there is no account. -/
def getTokenBalances (eth : Eth) (owner : Address) (docs : List (Fields Bson)) :
    Option (List (Address × TokenBalance)) :=
  (find (eth.hex owner) docs).map fun d =>
  readBalances eth (Bson.fields (Fields.get d "tokenBalances"))

/-- `GetTokenBalance`: the pipeline leaves the balances under the text of the token. -/
def getTokenBalance (eth : Eth) (owner token : Address) (docs : List (Fields Bson)) :
    Except Err (Option TokenBalance) :=
  match find (eth.hex owner) docs with
  | none => .error (.panic "index out of range")
  | some d =>
    let m := (Bson.fields (Fields.get d "tokenBalances")).filter (·.1 = eth.hex token)
    .ok ((readBalances eth m).lookup token)

end Accounts

/-! ## Sequences of updates -/

inductive BalanceWrite
  | tokenBalance (b : TokenBalance)
  | balance (n : Option Int)
  | allowance (n : Option Int)

/-- A call that updates a token of an account; the store may fail. -/
structure BalanceOp where
  owner : Address
  token : Address
  write : BalanceWrite
  fails : Bool

namespace BalanceOp

def update (eth : Eth) (op : BalanceOp) : List (Fields Bson) → Except Err (List (Fields Bson)) :=
  match op.write with
  | .tokenBalance b => Accounts.updateTokenBalance eth op.owner op.token b
  | .balance n => Accounts.updateBalance eth op.owner op.token n
  | .allowance n => Accounts.updateAllowance eth op.owner op.token n

def step (eth : Eth) (docs : List (Fields Bson)) (op : BalanceOp) : List (Fields Bson) :=
  if op.fails then docs
  else match op.update eth docs with
  | .ok docs => docs
  | .error _ => docs

end BalanceOp

end Dex
