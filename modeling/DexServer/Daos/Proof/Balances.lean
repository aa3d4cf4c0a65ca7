import DexServer.Daos.Balances
import DexServer.Sample
import Mathlib.Data.List.Induction

/-!
# Which writes to token balances are read

`BalanceWrite.apply` is what an update is for: it overwrites numbers of a token, and `lastWritten`
is what a sequence of updates leaves. The pending balance is read where `GetBSON` stored it, and
updated elsewhere:

* `Holds`: in every state the account's document has a document for each of its tokens, and no
  other. An update writes fields of one of them (`Holds.setPaths`).
* `token_balances_last_write_iff`: everything reads as it was last written, exactly if the last
  update of a token as a whole leaves its pending balance as it was at first.
-/

namespace Dex

open Lib

/-! ## What the updates are for -/

/-- The numbers that a write is to replace. -/
def BalanceWrite.apply (b : TokenBalance) : BalanceWrite → TokenBalance
  | tokenBalance x =>
    { b with
      balance := x.balance
      allowance := x.allowance
      lockedBalance := x.lockedBalance
      pendingBalance := x.pendingBalance }
  | balance n => { b with balance := n }
  | allowance n => { b with allowance := n }

/-- The update is one of the token, and does not fail. -/
def BalanceOp.Writes (owner token : Address) (op : BalanceOp) : Prop :=
  op.fails = false ∧ op.owner = owner ∧ op.token = token

instance (owner token : Address) (op : BalanceOp) : Decidable (op.Writes owner token) :=
  inferInstanceAs (Decidable (_ ∧ _))

/-- A token after the updates: the last value written of each number. -/
def lastWritten (owner token : Address) (ops : List BalanceOp) (b : TokenBalance) : TokenBalance :=
  ops.foldl (fun b op => if op.Writes owner token then op.write.apply b else b) b

/-- The pending balances that are written to a token. -/
def pendingWrites (owner token : Address) (ops : List BalanceOp) : List (Option Int) :=
  ops.filterMap fun op =>
    match op.write with
    | .tokenBalance x => if op.Writes owner token then some x.pendingBalance else none
    | _ => none

theorem lastWritten_concat (owner token : Address) (ops : List BalanceOp) (op : BalanceOp)
    (b : TokenBalance) : lastWritten owner token (ops ++ [op]) b =
      if op.Writes owner token then op.write.apply (lastWritten owner token ops b)
      else lastWritten owner token ops b := by
  rw [lastWritten, List.foldl_append]
  rfl

theorem pendingBalance_lastWritten (owner token : Address) (ops : List BalanceOp)
    (b : TokenBalance) : (lastWritten owner token ops b).pendingBalance =
      (pendingWrites owner token ops).getLast?.getD b.pendingBalance := by
  induction ops using List.reverseRecOn with
  | nil => rfl
  | append_singleton ops op ih =>
    rw [lastWritten_concat, pendingWrites, List.filterMap_append, ← pendingWrites]
    cases hw : op.write with
    | tokenBalance x =>
      by_cases h : op.Writes owner token
      · simp [h, hw, BalanceWrite.apply]
      · simp [h, hw, ih]
    | balance n | allowance n =>
      by_cases h : op.Writes owner token
      · simp [h, hw, ih, BalanceWrite.apply]
      · simp [h, hw, ih]

/-! ## Fields of a token -/

/-- The fields that a write sets. -/
def BalanceWrite.sets : BalanceWrite → Fields Bson
  | tokenBalance x =>
    [("balance", .str (bigString x.balance)),
     ("allowance", .str (bigString x.allowance)),
     ("lockedBalance", .str (bigString x.lockedBalance)),
     ("pendingBalance", .str (bigString x.pendingBalance))]
  | balance n => [("balance", .str (bigString n))]
  | allowance n => [("allowance", .str (bigString n))]

theorem BalanceOp.update_eq (eth : Eth) (op : BalanceOp) :
    op.update eth = Accounts.update (eth.hex op.owner)
      (op.write.sets.map fun s => (Accounts.path eth op.token s.1, s.2)) := by
  cases hw : op.write <;> simp only [BalanceOp.update, hw] <;> rfl

theorem ofFields_fields {eth : Eth} (heth : eth.ReadsBack) (b : TokenBalance) :
    TokenBalance.ofFields eth (b.fields eth) = b := by
  have hread : TokenBalance.ofFields eth (b.fields eth) =
      ⟨eth.hexToAddress (eth.hex b.address), b.symbol, setString (bigString b.balance),
        setString (bigString b.allowance), setString (bigString b.pendingBalance),
        setString (bigString b.lockedBalance)⟩ := rfl
  simp only [hread, heth.hex, setString_bigString]

/-- What is read after a write: what it should, but for the pending balance. -/
theorem ofFields_setAll (eth : Eth) (w : BalanceWrite) (d : Fields Bson) :
    TokenBalance.ofFields eth (d.setAll w.sets) =
      { w.apply (TokenBalance.ofFields eth d) with
        pendingBalance := (TokenBalance.ofFields eth d).pendingBalance } := by
  have hnames : w.sets.names.Nodup := by
    cases w <;> simp [BalanceWrite.sets, Fields.names]
  have hget : ∀ k, Fields.get (d.setAll w.sets) k = (List.lookup k w.sets).or (Fields.get d k) :=
    fun k => Fields.get_setAll hnames d k
  simp only [TokenBalance.ofFields, hget]
  cases w <;>
    simp [BalanceWrite.sets, BalanceWrite.apply, List.lookup_cons, Bson.text, setString_bigString]

/-! ## The document of an account -/

/-- The document of the account `a` has a document for each of its tokens, and no other: `F` are
their fields. -/
structure Holds (eth : Eth) (a : RawAccount) (F : Address → Fields Bson) (d : Fields Bson) :
    Prop where
  address : Fields.get d "address" = some (.str (eth.hex a.address))
  balances : ∃ m, Fields.get d "tokenBalances" = some (.doc m) ∧
    Fields.names m = a.tokens.map eth.hex ∧ ∀ t ∈ a.tokens, Fields.get m (eth.hex t) =
      some (.doc (F t))

/-- The fields at first. -/
def RawAccount.fieldsOf (eth : Eth) (a : RawAccount) (t : Address) : Fields Bson :=
  ((a.tokenBalances.lookup t).map (·.fields eth)).getD []

section
variable {eth : Eth} (heth : eth.ReadsBack) {a : RawAccount}

include heth in
theorem holds_document (id : ObjectId) : Holds eth a (a.fieldsOf eth) (a.document eth id) where
  address := rfl
  balances := by
    refine ⟨_, rfl, ?_, ?_⟩
    · rw [Fields.names, List.map_map, RawAccount.tokens, List.map_map]
      rfl
    · unfold RawAccount.tokens RawAccount.fieldsOf
      generalize a.tokenBalances = bs
      intro t ht
      induction bs with
      | nil => cases ht
      | cons p bs ih =>
        rw [List.map_cons]
        by_cases h : t = p.1
        · subst h
          rw [Fields.get_cons_self, List.lookup_cons_self]
          rfl
        · have hhex : eth.hex t ≠ eth.hex p.1 := fun e => h (hex_injective heth e)
          have hbs : t ∈ bs.map Prod.fst := by
            rcases List.mem_cons.1 ht with hp | hbs
            · exact absurd hp h
            · exact hbs
          have hb : (t == p.1) = false := by simpa using h
          rw [Fields.get_cons_ne hhex, ih hbs, List.lookup_cons, hb]

namespace Holds

variable {F : Address → Fields Bson} {d : Fields Bson}

theorem hasAddress (h : Holds eth a F d) : Accounts.HasAddress (eth.hex a.address) d := by
  rw [Accounts.HasAddress, h.address]
  rfl

include heth in
theorem setPath (h : Holds eth a F d) {t : Address} (ht : t ∈ a.tokens) (key : String) (v : Bson) :
    ∃ d', Bson.setPath v (Accounts.path eth t key) (.doc d) = .ok (.doc d') ∧
      Holds eth a (Function.update F t ((F t).set key v)) d' := by
  obtain ⟨m, hm, hnames, hF⟩ := h.balances
  have hmem : eth.hex t ∈ Fields.names m := by
    rw [hnames]
    exact List.mem_map.2 ⟨t, ht, rfl⟩
  refine ⟨Fields.set "tokenBalances" (.doc (Fields.set (eth.hex t) (.doc ((F t).set key v)) m)) d,
    ?_, ?_, ?_⟩
  · simp only [Accounts.path, Bson.setPath, hm, Option.getD_some, hF t ht, ok_bind]
  · rw [Fields.get_set_ne (by decide)]
    exact h.address
  · refine ⟨_, Fields.get_set_self .., (Fields.names_set_of_mem _ hmem).trans hnames, ?_⟩
    intro u hu
    by_cases hut : u = t
    · subst hut
      rw [Fields.get_set_self, Function.update_self]
    · have hhex : eth.hex u ≠ eth.hex t := fun e => hut (hex_injective heth e)
      rw [Fields.get_set_ne hhex, Function.update_of_ne hut]
      exact hF u hu

include heth in
theorem setPaths (h : Holds eth a F d) {t : Address} (ht : t ∈ a.tokens) (sets : Fields Bson) :
    ∃ d', Dex.setPaths (sets.map fun s => (Accounts.path eth t s.1, s.2)) d = .ok d' ∧
      Holds eth a (Function.update F t ((F t).setAll sets)) d' := by
  suffices hfold : ∃ d', (sets.map fun s => (Accounts.path eth t s.1, s.2)).foldlM
      (fun b p => Bson.setPath p.2 p.1 b) (.doc d) = .ok (.doc d') ∧
        Holds eth a (Function.update F t ((F t).setAll sets)) d' by
    obtain ⟨d', hd', hholds⟩ := hfold
    refine ⟨d', ?_, hholds⟩
    rw [Dex.setPaths, hd', ok_bind]
    rfl
  induction sets generalizing F d with
  | nil =>
    refine ⟨d, rfl, ?_⟩
    show Holds eth a (Function.update F t (F t)) d
    rwa [Function.update_eq_self]
  | cons s sets ih =>
    obtain ⟨d₁, hd₁, h₁⟩ := h.setPath heth ht s.1 s.2
    obtain ⟨d', hd', h'⟩ := ih h₁
    refine ⟨d', ?_, ?_⟩
    · rw [List.map_cons, List.foldlM_cons, hd₁, ok_bind, hd']
    · rw [Function.update_self, Function.update_idem] at h'
      exact h'

end Holds

end

/-! ## The collection -/

namespace Accounts

variable {address address' : String} {paths : List (List String × Bson)}
    {docs docs' : List (Fields Bson)}
  {d d' : Fields Bson}

theorem find_update_self (hfind : find address docs = some d) (hset : setPaths paths d = .ok d')
    (hd' : HasAddress address d') : ∃ docs', update address paths docs = .ok docs' ∧
    find address docs' = some d' := by
  induction docs with
  | nil => cases hfind
  | cons e docs ih =>
    by_cases he : HasAddress address e
    · obtain rfl : e = d := by simpa [find, he] using hfind
      refine ⟨d' :: docs, ?_, by simp [find, hd']⟩
      rw [update, if_pos he, hset, ok_bind]
    · have hrest : find address docs = some d := by simpa [find, he] using hfind
      obtain ⟨docs', hupdate, hfind'⟩ := ih hrest
      refine ⟨e :: docs', ?_, by simpa [find, he] using hfind'⟩
      rw [update, if_neg he, hupdate, ok_bind]

theorem get_address_setPath {v b : Bson} {ks : List String}
    (h : Bson.setPath v ("tokenBalances" :: ks) (.doc d) = .ok b) :
    ∃ d', b = .doc d' ∧ Fields.get d' "address" = Fields.get d "address" := by
  rw [Bson.setPath, bind_eq_ok] at h
  obtain ⟨c, -, hb⟩ := h
  cases hb
  exact ⟨_, rfl, Fields.get_set_ne (by decide) _ _⟩

theorem get_address_setPaths (hpaths : ∀ p ∈ paths, p.1.head? = some "tokenBalances")
    (h : setPaths paths d = .ok d') : Fields.get d' "address" = Fields.get d "address" := by
  rw [setPaths, bind_eq_ok] at h
  obtain ⟨b, hfold, hb⟩ := h
  cases hb
  induction paths generalizing d with
  | nil =>
    cases hfold
    rfl
  | cons p paths ih =>
    rw [List.foldlM_cons, bind_eq_ok] at hfold
    obtain ⟨c, hc, hfold⟩ := hfold
    obtain ⟨ks, hks⟩ : ∃ ks, p.1 = "tokenBalances" :: ks :=
      List.head?_eq_some_iff.1 (hpaths p List.mem_cons_self)
    rw [hks] at hc
    obtain ⟨e, rfl, he⟩ := get_address_setPath hc
    rw [ih (fun q hq => hpaths q (List.mem_cons_of_mem p hq)) hfold, he]

theorem find_update_ne (hne : address ≠ address')
    (hpaths : ∀ p ∈ paths, p.1.head? = some "tokenBalances")
    (h : update address' paths docs = .ok docs') : find address docs' = find address docs := by
  induction docs generalizing docs' with
  | nil => cases h
  | cons e docs ih =>
    rw [update] at h
    split at h
    case isTrue he =>
      rw [bind_eq_ok] at h
      obtain ⟨e', hset, hdocs⟩ := h
      cases hdocs
      have haddress := get_address_setPaths hpaths hset
      have he : ¬HasAddress address e := fun h' => hne (h'.symm.trans he)
      have he' : ¬HasAddress address e' := by
        rw [HasAddress, haddress]
        exact he
      simp [find, he, he']
    case isFalse =>
      rw [bind_eq_ok] at h
      obtain ⟨docs₁, hupdate, hdocs⟩ := h
      cases hdocs
      have hrest := ih hupdate
      unfold find at hrest ⊢
      rw [List.find?_cons, List.find?_cons, hrest]

theorem find_create {eth : Eth} {id : ObjectId} {a : RawAccount}
    (h : create eth id a docs = .ok docs') :
    find (eth.hex a.address) docs' = some (a.document eth id) := by
  unfold create at h
  split at h
  case isTrue => cases h
  case isFalse hnone =>
    cases h
    have hnew : HasAddress (eth.hex a.address) (a.document eth id) := rfl
    rw [Option.not_isSome_iff_eq_none] at hnone
    unfold find at hnone ⊢
    rw [List.find?_append, hnone]
    simp [hnew]

end Accounts

/-! ## Runs -/

/-- The account is stored, with the fields `F` of its tokens. -/
def Kept (eth : Eth) (a : RawAccount) (F : Address → Fields Bson) (docs : List (Fields Bson)) :
    Prop :=
  ∃ d, Accounts.find (eth.hex a.address) docs = some d ∧ Holds eth a F d

/-- The fields after an update. -/
def BalanceOp.fieldsAfter (owner : Address) (F : Address → Fields Bson) (op : BalanceOp)
    (t : Address) : Fields Bson :=
  if op.Writes owner t then (F t).setAll op.write.sets else F t

section
variable {eth : Eth} (heth : eth.ReadsBack) {a : RawAccount} {F : Address → Fields Bson}
  {docs : List (Fields Bson)}
include heth

theorem Kept.step (h : Kept eth a F docs) {op : BalanceOp}
    (hop : op.owner = a.address → op.token ∈ a.tokens) :
    Kept eth a (op.fieldsAfter a.address F) (op.step eth docs) := by
  obtain ⟨d, hfind, hholds⟩ := h
  have hpaths : ∀ p ∈ op.write.sets.map fun s => (Accounts.path eth op.token s.1, s.2),
      p.1.head? = some "tokenBalances" := by
    intro p hp
    obtain ⟨s, -, rfl⟩ := List.mem_map.1 hp
    rfl
  unfold BalanceOp.step
  cases hfails : op.fails with
  | true =>
    have hsame : op.fieldsAfter a.address F = F := by
      funext t
      simp [BalanceOp.fieldsAfter, BalanceOp.Writes, hfails]
    rw [hsame]
    exact ⟨d, hfind, hholds⟩
  | false =>
    rw [if_neg (by decide), op.update_eq]
    by_cases howner : op.owner = a.address
    · have htoken := hop howner
      obtain ⟨d', hset, hholds'⟩ := hholds.setPaths heth htoken op.write.sets
      obtain ⟨docs', hupdate, hfind'⟩ := Accounts.find_update_self hfind hset hholds'.hasAddress
      have hfields : op.fieldsAfter a.address F =
          Function.update F op.token ((F op.token).setAll op.write.sets) := by
        funext t
        by_cases ht : t = op.token
        · subst ht
          simp [BalanceOp.fieldsAfter, BalanceOp.Writes, hfails, howner]
        · simp [BalanceOp.fieldsAfter, BalanceOp.Writes, ht, Ne.symm ht]
      rw [howner, hupdate, hfields]
      exact ⟨d', hfind', hholds'⟩
    · have hsame : op.fieldsAfter a.address F = F := by
        funext t
        simp [BalanceOp.fieldsAfter, BalanceOp.Writes, howner]
      have hhex : eth.hex a.address ≠ eth.hex op.owner :=
        fun e => howner (hex_injective heth e).symm
      rw [hsame]
      cases hupdate : Accounts.update (eth.hex op.owner)
          (op.write.sets.map fun s => (Accounts.path eth op.token s.1, s.2)) docs with
      | error e => exact ⟨d, hfind, hholds⟩
      | ok docs' => exact ⟨d, (Accounts.find_update_ne hhex hpaths hupdate).trans hfind, hholds⟩

/-- What is read of a token is what was last written, but for the pending balance, which is as at
first. -/
theorem Kept.run {ops : List BalanceOp} (hops : ∀ op ∈ ops, op.owner = a.address →
    op.token ∈ a.tokens)
    (h : Kept eth a F docs) : ∃ F', Kept eth a F' (ops.foldl (BalanceOp.step eth) docs) ∧
      ∀ t, TokenBalance.ofFields eth (F' t) =
        { lastWritten a.address t ops (TokenBalance.ofFields eth (F t)) with
          pendingBalance := (TokenBalance.ofFields eth (F t)).pendingBalance } := by
  induction ops using List.reverseRecOn with
  | nil => exact ⟨F, h, fun _ => rfl⟩
  | append_singleton ops op ih =>
    obtain ⟨F', hkept, hread⟩ := ih fun op' h' => hops op' (List.mem_append_left _ h')
    have hop := hops op (List.mem_append_right _ List.mem_cons_self)
    refine ⟨op.fieldsAfter a.address F', ?_, ?_⟩
    · rw [List.foldl_append]
      exact hkept.step heth hop
    · intro t
      rw [lastWritten_concat, BalanceOp.fieldsAfter]
      by_cases hw : op.Writes a.address t
      · rw [if_pos hw, if_pos hw, ofFields_setAll, hread t]
        cases op.write <;> rfl
      · rw [if_neg hw, if_neg hw]
        exact hread t

end

/-! ## Reading -/

/-- What is read of a token, where the account's tokens have the fields `F`. -/
def tokenRead (eth : Eth) (a : RawAccount) (F : Address → Fields Bson) (t : Address) :
    Option TokenBalance :=
  if t ∈ a.tokens then some (TokenBalance.ofFields eth (F t)) else none

section
variable {eth : Eth} (heth : eth.ReadsBack)
include heth

theorem lookup_readBalances {m : Fields Bson} (hnames : ∀ k ∈ Fields.names m, ∃ t, k = eth.hex t)
    (t : Address) :
    (readBalances eth m).lookup t = (Fields.get m (eth.hex t)).map (TokenBalance.ofBson eth) := by
  induction m with
  | nil => rfl
  | cons p m ih =>
    obtain ⟨u, hu⟩ := hnames p.1 List.mem_cons_self
    have hrest := ih fun k hk => hnames k (List.mem_cons_of_mem _ hk)
    have hp : p = (eth.hex u, p.2) := by rw [← hu]
    rw [hp, readBalances, List.map_cons]
    simp only [heth.hex]
    by_cases htu : t = u
    · subst htu
      rw [List.lookup_cons_self, Fields.get_cons_self]
      rfl
    · have hhex : eth.hex t ≠ eth.hex u := fun e => htu (hex_injective heth e)
      have hb : (t == u) = false := by simpa using htu
      rw [List.lookup_cons, hb, Fields.get_cons_ne hhex]
      exact hrest

omit heth in
theorem get_filter (m : Fields Bson) (k : String) :
    Fields.get (m.filter (·.1 = k)) k = Fields.get m k := by
  induction m with
  | nil => rfl
  | cons p m ih =>
    by_cases h : p.1 = k
    · subst h
      rw [List.filter_cons_of_pos (by simp), Fields.get, List.lookup_cons_self, Fields.get,
        List.lookup_cons_self]
    · rw [List.filter_cons_of_neg (by simpa using h), ih]
      exact (Fields.get_cons_ne (Ne.symm h) p.2 m).symm

variable {a : RawAccount} {F : Address → Fields Bson} {docs : List (Fields Bson)}

theorem Kept.reads (h : Kept eth a F docs) :
    (∀ t, Accounts.getTokenBalance eth a.address t docs = .ok (tokenRead eth a F t)) ∧
      ∃ bs, Accounts.getTokenBalances eth a.address docs = some bs ∧
      ∀ t, bs.lookup t = tokenRead eth a F t := by
  obtain ⟨d, hfind, hholds⟩ := h
  obtain ⟨m, hm, hnames, hF⟩ := hholds.balances
  have hhex : ∀ k ∈ Fields.names m, ∃ t, k = eth.hex t := by
    intro k hk
    rw [hnames] at hk
    obtain ⟨t, -, rfl⟩ := List.mem_map.1 hk
    exact ⟨t, rfl⟩
  have hget : ∀ t, (Fields.get m (eth.hex t)).map (TokenBalance.ofBson eth) =
      tokenRead eth a F t := by
    intro t
    by_cases ht : t ∈ a.tokens
    · simp [tokenRead, ht, hF t ht, TokenBalance.ofBson]
    · have hnot : eth.hex t ∉ Fields.names m := by
        rw [hnames]
        intro hmem
        obtain ⟨u, hu, hut⟩ := List.mem_map.1 hmem
        exact ht (hex_injective heth hut ▸ hu)
      simp [tokenRead, ht, Fields.get_eq_none hnot]
  constructor
  · intro t
    have hfilter : ∀ k ∈ Fields.names (m.filter (·.1 = eth.hex t)), ∃ u, k = eth.hex u := by
      intro k hk
      obtain ⟨p, hp, rfl⟩ := List.mem_map.1 hk
      exact hhex p.1 (List.mem_map.2 ⟨p, (List.mem_filter.1 hp).1, rfl⟩)
    simp only [Accounts.getTokenBalance, hfind, hm, Bson.fields]
    rw [lookup_readBalances heth hfilter, get_filter, hget]
  · refine ⟨readBalances eth m, ?_, ?_⟩
    · simp only [Accounts.getTokenBalances, hfind, hm, Bson.fields, Option.map_some]
    · intro t
      rw [lookup_readBalances heth hhex, hget]

end

/-- Everything reads as it was last written: each token with each function, and no token that the
account has not. -/
structure LastWriteWins (eth : Eth) (a : RawAccount) (ops : List BalanceOp)
    (docs : List (Fields Bson)) : Prop where
  getTokenBalance : ∀ t, Accounts.getTokenBalance eth a.address t docs =
    .ok ((a.tokenBalances.lookup t).map (lastWritten a.address t ops))
  getTokenBalances : ∃ bs, Accounts.getTokenBalances eth a.address docs = some bs ∧
    ∀ t, bs.lookup t = (a.tokenBalances.lookup t).map (lastWritten a.address t ops)

theorem lookup_of_mem {α : Type} {bs : List (Address × α)} (hbs : (bs.map Prod.fst).Nodup)
    {p : Address × α} (hp : p ∈ bs) : bs.lookup p.1 = some p.2 := by
  induction bs with
  | nil => cases hp
  | cons q bs ih =>
    rw [List.map_cons, List.nodup_cons] at hbs
    rcases List.mem_cons.1 hp with rfl | hp
    · exact List.lookup_cons_self
    · have hne : p.1 ≠ q.1 := fun e => hbs.1 (e ▸ List.mem_map.2 ⟨p, hp, rfl⟩)
      have hb : (p.1 == q.1) = false := by simpa using hne
      rw [List.lookup_cons, hb]
      exact ih hbs.2 hp

/-- **Last write wins** for an account, after any updates of its tokens, exactly if for each token
the last update as a whole that does not fail (if there is one) writes the pending balance that the
token was created with. -/
theorem token_balances_last_write_iff {eth : Eth} (heth : eth.ReadsBack) {id : ObjectId}
    {a : RawAccount} {docs docs' : List (Fields Bson)}
    (hcreate : Accounts.create eth id a docs = .ok docs') (ops : List BalanceOp)
    (hops : ∀ op ∈ ops, op.owner = a.address → op.token ∈ a.tokens) :
    LastWriteWins eth a ops (ops.foldl (BalanceOp.step eth) docs') ↔
      ∀ p ∈ a.tokenBalances, ∀ n ∈ (pendingWrites a.address p.1 ops).getLast?, n =
        p.2.pendingBalance := by
  have hfirst : Kept eth a (a.fieldsOf eth) docs' :=
    ⟨_, Accounts.find_create hcreate, holds_document heth id⟩
  obtain ⟨F, hkept, hread⟩ := hfirst.run heth hops
  obtain ⟨hone, bs, hbs, hall⟩ := hkept.reads heth
  have hmem : ∀ p ∈ a.tokenBalances, p.1 ∈ a.tokens := fun p hp => List.mem_map.2 ⟨p, hp, rfl⟩
  have htoken : ∀ p ∈ a.tokenBalances, TokenBalance.ofFields eth (F p.1) =
      { lastWritten a.address p.1 ops p.2 with pendingBalance := p.2.pendingBalance } := by
    intro p hp
    have h0 : TokenBalance.ofFields eth (a.fieldsOf eth p.1) = p.2 := by
      rw [RawAccount.fieldsOf, lookup_of_mem a.tokens_nodup hp]
      exact ofFields_fields heth p.2
    rw [hread p.1, h0]
  constructor
  · intro h p hp n hn
    have hp1 := h.getTokenBalance p.1
    rw [hone p.1, tokenRead, if_pos (hmem p hp), htoken p hp,
      lookup_of_mem a.tokens_nodup hp] at hp1
    have hpending := congrArg TokenBalance.pendingBalance (Option.some.inj (Except.ok.inj hp1))
    rw [pendingBalance_lastWritten, Option.mem_def.1 hn] at hpending
    exact hpending.symm
  · intro h
    have hsame : ∀ t, tokenRead eth a F t =
        (a.tokenBalances.lookup t).map (lastWritten a.address t ops) := by
      intro t
      by_cases ht : t ∈ a.tokens
      · obtain ⟨p, hp, rfl⟩ := List.mem_map.1 ht
        have hpending : (lastWritten a.address p.1 ops p.2).pendingBalance =
            p.2.pendingBalance := by
          rw [pendingBalance_lastWritten]
          cases hlast : (pendingWrites a.address p.1 ops).getLast? with
          | none => rfl
          | some n => exact h p hp n hlast
        rw [tokenRead, if_pos ht, htoken p hp, lookup_of_mem a.tokens_nodup hp, ← hpending]
        rfl
      · have hnone : a.tokenBalances.lookup t = none := by
          rw [List.lookup_eq_none_iff]
          intro p hp
          have hne : t ≠ p.1 := fun e => ht (e ▸ hmem p hp)
          simpa using hne
        rw [tokenRead, if_neg ht, hnone]
        rfl
    exact ⟨fun t => (hone t).trans (congrArg _ (hsame t)), bs, hbs,
      fun t => (hall t).trans (hsame t)⟩

/-- An account with one token, of which nothing is pending. -/
def RawAccount.sample : RawAccount where
  address := 1
  tokenBalances := [(3, ⟨3, "ZRX", some 10, some 10, some 0, some 5⟩)]
  tokens_nodup := by decide
  isBlocked := false

/-- The balance is updated, then the token with nothing pending. -/
theorem token_balances_last_write_sample :
    LastWriteWins .sample .sample
      [⟨1, 3, .balance (some 20), false⟩, ⟨1, 3,
        .tokenBalance ⟨3, "ZRX", some 7, some 8, some 0, some 6⟩, false⟩]
      ([⟨1, 3, .balance (some 20), false⟩,
        ⟨1, 3, .tokenBalance ⟨3, "ZRX", some 7, some 8, some 0, some 6⟩, false⟩].foldl
          (BalanceOp.step .sample) [RawAccount.sample.document .sample 0]) := by
  have hcreate : Accounts.create .sample 0 .sample [] =
      .ok [RawAccount.sample.document .sample 0] := rfl
  apply (token_balances_last_write_iff Eth.sample_readsBack hcreate _ ?_).2
  · simp [RawAccount.sample, pendingWrites, BalanceOp.Writes]
  · simp [RawAccount.sample, RawAccount.tokens]

/-- **A pending balance that is not read**: 9 is written, and 0 is read. -/
theorem pending_balance_lost :
    (Accounts.updateTokenBalance .sample 1 3 ⟨3, "ZRX", some 7, some 8, some 9, some 6⟩
      [RawAccount.sample.document .sample 0]).bind (Accounts.getTokenBalance .sample 1 3) =
        .ok (some ⟨3, "ZRX", some 7, some 8, some 0, some 6⟩) := by
  decide +kernel

end Dex
