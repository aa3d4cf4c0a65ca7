import DexServer.Types.Crypto

/-!
# Accounts (`types/account.go`)
-/

namespace Dex

/-- `Account`. The token balances are left out: they are not looked at after an account is made. -/
structure Account where
  address : Address
  isBlocked : Bool
  deriving DecidableEq, Repr

end Dex
