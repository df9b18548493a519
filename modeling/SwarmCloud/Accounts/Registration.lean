import SwarmCloud.Accounts.Decoding
import SwarmCloud.Accounts.HoldRuns

/-! # Registering an account again

`AccountStore.register` reads the document, builds a whole account from it and
sets the document, with no transaction around the two. What the second step
keeps of an account that is already there.
-/

namespace SwarmCloud.Accounts

open Common Lib

inductive RegisterError
  | account (message : String)
  | typeError
  | decode (accountId : String) (error : Malformed)

def isLabelEnd (c : Char) : Bool := c.isLower || c.isDigit

/-- `_LABEL`: at most 40 lowercase letters, digits and dashes, no dash at either end. The `$` of the
pattern lets one newline follow. -/
def isLabel (label : String) : Bool :=
  let cs := if label.toList.getLast? = some '\n' then label.toList.dropLast else label.toList
  cs.head?.any isLabelEnd && cs.getLast?.any isLabelEnd && cs.length ≤ 40 &&
    cs.all fun c => isLabelEnd c || c = '-'

def validateLabel (py : Python) (label : Raw) : Except RegisterError Unit :=
  let refused := .error (.account ("account label " ++ py.repr label ++ " must be lowercase letters, digits and " ++
    "dashes, starting and ending alphanumeric, at most 40 characters -- " ++
    "it becomes part of a Secret Manager name and a Kubernetes annotation"))
  if label.truthy then
    match label with
    | .text s => if isLabel s then .ok () else refused
    | _ => .error .typeError
  else refused

def separator : String := "--"

def requireOwner (ownerTenant : Raw) : Except RegisterError Unit :=
  if ownerTenant.truthy then .ok () else .error (.account "an account must have an owning tenant")

/-- Whether a text is part of another. -/
def isPartOf (part text : String) : Bool := text.toList.tails.any part.toList.isPrefixOf

/-- `"--" in owner_tenant`, whatever the owner is. -/
def holdsSeparator : Raw → Except RegisterError Bool
  | .text s => .ok (isPartOf separator s)
  | .list items => .ok (separator ∈ textsOf items)
  | .map fields => .ok (separator ∈ fields.map Prod.fst)
  | _ => .error .typeError

def secretName (py : Python) (ownerTenant label : Raw) : Except RegisterError String := do
  validateLabel py label
  requireOwner ownerTenant
  if ← holdsSeparator ownerTenant then
    .error (.account ("tenant id " ++ py.repr ownerTenant ++ " contains " ++ py.repr (.text separator) ++
      ", which separates the tenant from the label in a secret name and must appear in neither"))
  else pure ("swarm-account-" ++ py.text ownerTenant ++ separator ++ py.text label)

/-- The name recorded at registration, else the one that is derived. -/
def Account.secret (py : Python) (a : Account) : Except RegisterError String :=
  if a.secretRef = "" then secretName py a.ownerTenant a.label else .ok a.secretRef

/-- What `register` is called with. -/
structure Call where
  ownerTenant : String
  label : String
  provider : String := "anthropic"
  lendTo : List String := []

namespace Call

def accountId (call : Call) : String := call.ownerTenant ++ ":" ++ call.label

def lend (call : Call) : List Raw :=
  (call.lendTo.filter fun t => t ≠ "" && t ≠ call.ownerTenant).map .text

def checked (py : Python) (call : Call) : Except RegisterError Unit := do
  validateLabel py (.text call.label)
  requireOwner (.text call.ownerTenant)

/-- `current.secret or secret_name(owner_tenant, label)`. -/
def secretFor (py : Python) (call : Call) (current : Account) : Except RegisterError String :=
  match current.secret py with
  | .ok secret => if secret = "" then secretName py (.text call.ownerTenant) (.text call.label) else .ok secret
  | .error e => .error e

/-- The account built from the one that was read. -/
def carried (call : Call) (current : Account) (secretRef : String) : Account where
  accountId := .text call.accountId
  ownerTenant := .text call.ownerTenant
  label := .text call.label
  provider := .text call.provider
  state := current.state
  lendTo := call.lend
  windows := current.windows
  observedAt := current.observedAt
  holds := current.holds
  unreadableBy := current.unreadableBy
  lastAssignedAt := current.lastAssignedAt
  assigned := current.assigned
  reason := current.reason
  stateBeforeReauth := current.stateBeforeReauth
  lastRefreshAt := current.lastRefreshAt
  tokenExpiresAt := current.tokenExpiresAt
  lastRefreshReason := current.lastRefreshReason
  modelClasses := current.modelClasses
  displayName := current.displayName
  maxAgents := current.maxAgents
  organisationId := current.organisationId
  organisationName := current.organisationName
  organisationPlan := current.organisationPlan
  seatId := current.seatId
  registeredAt := current.registeredAt
  duplicateOf := current.duplicateOf
  duplicateWithheld := current.duplicateWithheld
  possibleDuplicateOf := current.possibleDuplicateOf
  identicalReadings := current.identicalReadings
  pools := current.pools
  voiceItPeople := current.voiceItPeople
  secretRef := secretRef

def updated (py : Python) (call : Call) (current : Account) : Except RegisterError Account :=
  (call.secretFor py current).map (call.carried current)

/-- The read step of `register`: the account that its write step will set. -/
def read (py : Python) (call : Call) (now : Instant) (existing : Option Document) :
    Except RegisterError Account := do
  call.checked py
  match existing with
  | some data =>
    match fromFirestore py data with
    | .ok current => call.updated py current
    | .error e => .error (.decode call.accountId e)
  | none =>
    let secret ← secretName py (.text call.ownerTenant) (.text call.label)
    pure {
      accountId := .text call.accountId
      ownerTenant := .text call.ownerTenant
      label := .text call.label
      provider := .text call.provider
      lendTo := call.lend
      secretRef := secret
      registeredAt := some now }

end Call

section Again

variable {py : Python} {call : Call} {now : Instant} {data : Document} {current : Account}

/-- The same account but for its provider, who it is lent to and its secret. -/
def SameElse (after before : Account) : Prop :=
  { after with provider := before.provider, lendTo := before.lendTo, secretRef := before.secretRef } = before

/-- The document names the owner, the label and itself as the call does. -/
def Call.Names (call : Call) (a : Account) : Prop :=
  a.accountId = .text call.accountId ∧ a.ownerTenant = .text call.ownerTenant ∧ a.label = .text call.label

/-- The call is refused before it writes: its label or its owner is no good, or no secret was
recorded and the name of one cannot be derived. -/
def Call.Refused (py : Python) (call : Call) (current : Account) : Prop :=
  (∃ e, call.checked py = .error e) ∨
    current.secretRef = "" ∧ ∃ e, secretName py current.ownerTenant current.label = .error e

theorem secretName_ne {ownerTenant label : Raw} {name : String} (h : secretName py ownerTenant label = .ok name) :
    name ≠ "" := by
  rw [secretName] at h
  obtain ⟨_, -, h⟩ := bind_eq_ok h
  obtain ⟨_, -, h⟩ := bind_eq_ok h
  obtain ⟨held, -, h⟩ := bind_eq_ok h
  cases held with
  | true => cases h
  | false =>
    obtain rfl := Except.ok.inj h
    simp [separator]

theorem secret_ne {name : String} (h : current.secret py = .ok name) : name ≠ "" := by
  rw [Account.secret] at h
  split at h
  · exact secretName_ne h
  · rename_i hrecorded
    exact Except.ok.inj h ▸ hrecorded

theorem Account.Storable.carried (h : current.Storable py) (call : Call) (secretRef : String) :
    (call.carried current secretRef).Storable py :=
  { h with limitedWindow := rfl }

/-- A call that is not refused carries the account over, with some secret. -/
theorem read_of_not_refused (hdecoded : fromFirestore py data = .ok current) (hnot : ¬ call.Refused py current) :
    ∃ secretRef, call.read py now (some data) = .ok (call.carried current secretRef) := by
  rw [Call.Refused, not_or] at hnot
  obtain ⟨hchecked, hsecret⟩ := hnot
  have hok : ∃ secretRef, call.secretFor py current = .ok secretRef := by
    rw [Call.secretFor]
    cases hname : current.secret py with
    | ok secret => exact ⟨secret, if_neg (secret_ne hname)⟩
    | error e =>
      rw [Account.secret] at hname
      split at hname
      · rename_i hempty
        exact absurd ⟨hempty, e, hname⟩ hsecret
      · cases hname
  obtain ⟨secretRef, hsecretFor⟩ := hok
  refine ⟨secretRef, ?_⟩
  rw [Call.read, hdecoded]
  cases hcheck : call.checked py with
  | error e => exact absurd ⟨e, hcheck⟩ hchecked
  | ok _ =>
    refine Eq.trans (b := call.updated py current) rfl ?_
    rw [Call.updated, hsecretFor]
    rfl

theorem read_of_refused (hdecoded : fromFirestore py data = .ok current) (hrefused : call.Refused py current)
    (after : Account) : call.read py now (some data) ≠ .ok after := by
  intro hread
  rw [Call.read, hdecoded] at hread
  obtain ⟨_, hchecked, hread⟩ := bind_eq_ok hread
  obtain ⟨e, he⟩ | ⟨hempty, e, he⟩ := hrefused
  · rw [he] at hchecked
    cases hchecked
  · obtain ⟨secretRef, hsecret, -⟩ := map_eq_ok hread
    rw [Call.secretFor, Account.secret, if_pos hempty, he] at hsecret
    cases hsecret

/-- A registration over a decoded document keeps the rest of it just when the document is the
call's own and records no 429. -/
theorem sameElse_carried_iff (call : Call) (current : Account) (secretRef : String) :
    SameElse (call.carried current secretRef) current ↔
      call.Names current ∧ current.limitedUntil = none ∧ current.limitedWindow = none := by
  constructor
  · intro hsame
    exact ⟨⟨(congrArg Account.accountId hsame).symm, (congrArg Account.ownerTenant hsame).symm,
      (congrArg Account.label hsame).symm⟩, (congrArg Account.limitedUntil hsame).symm,
      (congrArg Account.limitedWindow hsame).symm⟩
  · rintro ⟨⟨hid, howner, hlabel⟩, huntil, hwindow⟩
    rw [SameElse]
    cases current with
    | mk =>
      simp only at hid howner hlabel huntil hwindow
      simp [Call.carried, hid, howner, hlabel, huntil, hwindow]

/-- The document that the write step leaves decodes to the account as it was, but for what the
call may change. A refused call leaves the document. -/
def KeepsAccount (py : Python) (call : Call) (now : Instant) (data : Document) (current : Account) : Prop :=
  ∀ written, call.read py now (some data) = .ok written →
    ∃ after, fromFirestore py (toFirestore written) = .ok after ∧ SameElse after current

/-- No hold that came onto the account between the two steps is gone after the second. -/
def KeepsNewHolds (py : Python) (call : Call) (now : Instant) (data : Document) (before between : Store) : Prop :=
  ∀ written, call.read py now (some data) = .ok written →
    ∀ id ∈ between.ids call.accountId, id ∉ before.ids call.accountId →
      id ∈ (between.update call.accountId written).ids call.accountId

/-- For a document that decodes, and any transactions between the read and the write of a
registration: the account and its new holds are kept if and only if the call is refused, or
the document is the call's own and records no 429 and no hold came onto it in between. -/
theorem register_keeps_iff (clean : String → String) (call : Call) (now : Instant)
    (hdecoded : fromFirestore py data = .ok current) {st : Store}
    (hread : st.account call.accountId = some current) (ops : List Store.Op) :
    KeepsAccount py call now data current ∧ KeepsNewHolds py call now data st (Store.run clean st ops) ↔
      call.Refused py current ∨
        (call.Names current ∧ current.limitedUntil = none ∧ current.limitedWindow = none) ∧
          ∀ id ∈ (Store.run clean st ops).ids call.accountId, id ∈ st.ids call.accountId := by
  by_cases hrefused : call.Refused py current
  · have hnever := @read_of_refused py call now data current hdecoded hrefused
    simp only [hrefused, true_or, iff_true]
    exact ⟨fun written hwritten => absurd hwritten (hnever written),
      fun written hwritten => absurd hwritten (hnever written)⟩
  · obtain ⟨secretRef, hwritten⟩ := @read_of_not_refused py call now data current hdecoded hrefused
    have hdecodes : fromFirestore py (toFirestore (call.carried current secretRef)) =
        .ok (call.carried current secretRef) :=
      fromFirestore_toFirestore ((fromFirestore_storable hdecoded).carried call secretRef)
    have hids : ((Store.run clean st ops).update call.accountId (call.carried current secretRef)).ids
        call.accountId = st.ids call.accountId := by
      rw [Store.ids_of_account hread]
      exact @Store.ids_of_account _ _ (call.carried current secretRef)
        ((Store.account_update _ _ _ _).trans (if_pos rfl))
    simp only [hrefused, false_or]
    apply and_congr
    · rw [← sameElse_carried_iff call current secretRef]
      constructor
      · intro hkeeps
        obtain ⟨after, hafter, hsame⟩ := hkeeps _ hwritten
        rw [hdecodes] at hafter
        exact Except.ok.inj hafter ▸ hsame
      · intro hsame written hwritten'
        obtain rfl := Except.ok.inj (hwritten.symm.trans hwritten')
        exact ⟨_, hdecodes, hsame⟩
    · constructor
      · intro hkeeps id hid
        by_contra hnew
        have hafter := hkeeps _ hwritten id hid hnew
        rw [hids] at hafter
        exact hnew hafter
      · intro hnone written hwritten' id hid hnew
        exact absurd (hnone id hid) hnew

end Again

/-! ## Samples -/

/-- Conversions that agree with Python's on the samples, which have no text to fold or to parse. -/
def samplePython : Python where
  isSpace := fun c => c = ' '
  isForbiddenInName := fun c => c = '\n'
  lower := id
  str := fun _ => "None"
  repr := fun _ => "None"
  floatOfText := fun _ => .error .valueError
  floatOfInt := fun _ => .error .overflowError
  intOfText := fun _ => .error .valueError
  intOfFloat := fun _ => .error .overflowError
  str_ne := fun _ => by decide
  lower_lower := fun _ => rfl
  lower_ne := fun _ h => h
  lower_ends := fun _ h => h

def sampleCall : Call := { ownerTenant := "t", label := "main" }

/-- An account as it was registered, held by a recorded 429 or not. -/
def registeredAccount (limitedUntil : Option Instant) : Account :=
  { accountId := .text "t:main", ownerTenant := .text "t", label := .text "main",
    secretRef := "swarm-account-t--main", limitedUntil := limitedUntil }

theorem registeredAccount_storable (limitedUntil : Option Instant) :
    (registeredAccount limitedUntil).Storable samplePython where
  windows := List.nodup_nil
  holds := fun hold hin => by cases hin
  unreadableBy := List.nodup_nil
  reason := rfl
  modelClasses := rfl
  displayName := rfl
  maxAgents := rfl
  organisationId := rfl
  organisationName := rfl
  organisationPlan := rfl
  seatId := rfl
  duplicateOf := rfl
  possibleDuplicateOf := rfl
  identicalReadings := rfl
  limitedWindow := rfl
  pools := (by decide : poolsFromFirestore (.list (defaultPools.map .text)) = .ok defaultPools)
  voiceItPeople := rfl

def registeredStore (limitedUntil : Option Instant) : Store := ⟨[("t:main", registeredAccount limitedUntil)], []⟩

theorem sampleCall_accountId : sampleCall.accountId = "t:main" := by decide

/-- An account that is lent out, with an agent on it and a tenant that could not be read on it. -/
def heldAccount : Account :=
  { registeredAccount none with
    lendTo := [.text "friend"], reason := .text "resumed", maxAgents := 4, assigned := 7,
    holds := [{ assignmentId := "old", tenantId := "t", expiresAt := 500 }], unreadableBy := [("friend", 40)] }

theorem heldAccount_storable : heldAccount.Storable samplePython :=
  { registeredAccount_storable none with
    holds := by
      rintro hold hin
      obtain rfl := List.mem_singleton.mp hin
      exact ⟨by decide, by decide, by decide, by decide, by decide, by decide, by decide, by decide, by decide⟩
    unreadableBy := by decide
    reason := rfl
    maxAgents := rfl }

def heldStore : Store := ⟨[("t:main", heldAccount)], []⟩

/-- The hold that was read ends, and one more comes and goes. -/
def betweenOps : List Store.Op :=
  [.release "t:main" ⟨"old", none, false, none⟩ 10, .acquire "t:main" Store.sampleAsk 11 "new",
    .release "t:main" ⟨"new", none, false, none⟩ 12]

theorem register_keeps_held_account :
    (Store.run id heldStore (betweenOps.take 2)).ids "t:main" = ["new"] ∧
      KeepsAccount samplePython sampleCall 0 (toFirestore heldAccount) heldAccount ∧
      KeepsNewHolds samplePython sampleCall 0 (toFirestore heldAccount) heldStore (Store.run id heldStore betweenOps) := by
  have hread : heldStore.account sampleCall.accountId = some heldAccount := by
    rw [sampleCall_accountId]
    rfl
  refine ⟨by decide, ?_⟩
  apply (register_keeps_iff id sampleCall 0 (fromFirestore_toFirestore heldAccount_storable) hread betweenOps).mpr
  refine .inr ⟨⟨⟨congrArg Raw.text sampleCall_accountId.symm, rfl, rfl⟩, rfl, rfl⟩, ?_⟩
  have hnone : (Store.run id heldStore betweenOps).ids "t:main" = [] := by decide
  rw [sampleCall_accountId, hnone]
  exact fun id hid => by cases hid

theorem sampleCall_not_refused (limitedUntil : Option Instant) :
    ¬ sampleCall.Refused samplePython (registeredAccount limitedUntil) := by
  rintro (⟨e, he⟩ | ⟨hempty, -⟩)
  · have hlabel : isLabel "main" = true := by decide
    simp [Call.checked, validateLabel, requireOwner, Raw.truthy, hlabel, sampleCall, bind, Except.bind] at he
  · exact absurd hempty (by decide : "swarm-account-t--main" ≠ "")

/-- A 429 on record is forgotten, and a hold that came in between is dropped. -/
theorem register_forgets_limit_and_hold :
    ¬ KeepsAccount samplePython sampleCall 0 (toFirestore (registeredAccount (some 100)))
        (registeredAccount (some 100)) ∧
    ¬ KeepsNewHolds samplePython sampleCall 0 (toFirestore (registeredAccount none)) (registeredStore none)
        (Store.run id (registeredStore none) [.acquire "t:main" Store.sampleAsk 0 "first"]) := by
  constructor
  · intro hkeeps
    obtain ⟨secretRef, hwritten⟩ := @read_of_not_refused samplePython sampleCall 0 _ _
      (fromFirestore_toFirestore (registeredAccount_storable (some 100))) (sampleCall_not_refused _)
    obtain ⟨after, hafter, hsame⟩ := hkeeps _ hwritten
    rw [fromFirestore_toFirestore ((registeredAccount_storable (some 100)).carried sampleCall secretRef)] at hafter
    obtain rfl := Except.ok.inj hafter
    cases congrArg Account.limitedUntil hsame
  · intro hkeeps
    obtain ⟨secretRef, hwritten⟩ := @read_of_not_refused samplePython sampleCall 0 _ _
      (fromFirestore_toFirestore (registeredAccount_storable none)) (sampleCall_not_refused _)
    have hnew := hkeeps _ hwritten "first"
    rw [sampleCall_accountId] at hnew
    have hafter := hnew (by decide) (by decide)
    cases hafter

end SwarmCloud.Accounts
