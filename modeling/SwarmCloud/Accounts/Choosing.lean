import SwarmCloud.Accounts.Account
import SwarmCloud.Accounts.Resets
import SwarmCloud.Lib.Sorting
import Mathlib.Data.Prod.Lex
import Mathlib.Data.String.Basic
import Mathlib.Tactic.Linarith

/-! # Which account a new agent gets, and why none

`choose` and `eligibility` of the pool. They sort the same accounts by the same
reasons: a state that takes no agents, a second registration of one subscription,
a mark of the tenant, the windows and a 429, the cap, the first reading and the
caller's own list.
-/

namespace SwarmCloud.Accounts.Choosing

open Common Lib

/-! ## The accounts -/

/-- `openai_api_key.PROVIDER`. -/
def openaiApiProvider : String := "openai-api"

/-- What the two functions read of an account. -/
structure Account extends Resets.Account where
  accountId : String
  ownerTenant : String
  label : String
  provider : String := "anthropic"
  state : AccountState := .available
  lendTo : List String := []
  holds : List Hold := []
  assigned : Int := 0
  unreadableBy : Dict String Instant := []
  modelClasses : List String := []
  maxAgents : Int := defaultMaxAgents
  organisationId : Option String := none
  seatId : Option String := none
  registeredAt : Option Instant := none
  duplicateOf : Option String := none
  duplicateWithheld : Bool := false
  pools : List String := defaultPools

/-- What a caller asks for. The class is none where it is not known, and empty where none is asked about. -/
structure Ask where
  tenantId : String
  now : Instant
  rule : Resets.Rule := {}
  exclude : List String := []
  modelClass : Option String := some ""

namespace Account

variable (a : Account) (tenantId : String) (rule : Resets.Rule) (now : Instant)

def measured : Bool := a.provider ≠ openaiApiProvider

def servesClass (modelClass : Option String) : Bool :=
  a.modelClasses.isEmpty || modelClass.any fun name => name ∈ a.modelClasses

def liveHolds : List Hold := a.holds.filter fun hold => !hold.isExpired now

def isFull : Bool := a.maxAgents ≤ (a.liveHolds now).length

def awaitsFirstReading : Bool :=
  a.measured && a.observedAt.isNone && maxAgentsBeforeReading ≤ ((a.liveHolds now).length : Int)

/-- `unreadable_until`, with the age from which a reading is stale. -/
def unreadableUntil : Option Instant := (a.unreadableBy.lookup tenantId).map fun reported => reported + rule.staleAfter

def isUnreadableFor : Bool := (a.unreadableUntil tenantId rule).any fun until_ => now ≤ until_

def mayServe : Bool := poolWorkspace ∈ a.pools && (tenantId = a.ownerTenant || tenantId ∈ a.lendTo)

def isStale : Bool := a.observedAt.any fun observed => rule.staleAfter < now - observed

/-- `_binding_remaining`. -/
def bindingRemaining : Rat :=
  ((a.windows.map fun item => if item.2.isReset now then 1 else item.2.remaining).min?).getD 1

def headroom : Rat :=
  if a.windows.isEmpty || a.observedAt.isNone then 1
  else if a.isStale rule now then a.bindingRemaining now * (1 / 2)
  else a.bindingRemaining now

end Account

/-! ## Two registrations of one subscription -/

/-- `subscription_identity`: the provider, the organisation and the seat. -/
structure Subscription where
  provider : String
  organisation : String
  seat : String
deriving DecidableEq, Repr

def Account.subscription (a : Account) : Option Subscription :=
  match a.organisationId, a.seatId with
  | some organisation, some seat =>
    if organisation = "" ∨ seat = "" then none else some ⟨a.provider, organisation, seat⟩
  | _, _ => none

def oneSubscription (a b : Account) : Bool := a.subscription.isSome && a.subscription = b.subscription

/-- `_registration_order`: a document without the date predates the field. -/
def registrationOrder (a : Account) : Nat ×ₗ Instant ×ₗ String :=
  toLex (if a.registeredAt.isNone then 0 else 1, toLex (a.registeredAt.getD 0, a.accountId))

/-- The marks of one group, the oldest registration first. -/
def groupMarks : List Account → Dict String (String × Bool)
  | kept :: first :: newer =>
    (kept.accountId, first.accountId, false) :: (first :: newer).map fun a => (a.accountId, kept.accountId, true)
  | _ => []

def duplicates (accounts : List Account) : Dict String (String × Bool) :=
  let known := accounts.filterMap fun a => a.subscription.map fun identity => (identity, a)
  let marks := (Dict.grouped Prod.fst Prod.snd known).flatMap fun group =>
    groupMarks (sortBy registrationOrder group.2)
  Dict.filled Prod.fst Prod.snd marks

/-- `withheld_mark`. -/
def withheldMark (a : Account) (listed : Dict String Account) : Bool :=
  a.duplicateWithheld && a.subscription.isSome && (listed.lookup (a.duplicateOf.getD "")).all (oneSubscription a)

/-- `_withheld`. -/
def withheld (accounts : List Account) : List String :=
  let listed := Dict.filled Account.accountId id accounts
  (accounts.filter fun a => withheldMark a listed).map Account.accountId ++
    ((duplicates accounts).filter fun mark => mark.2.2).map Prod.fst

/-! ## Choosing -/

section Choose

variable (accounts : List Account) (ask : Ask)

def Ask.serves (a : Account) : Bool :=
  a.mayServe ask.tenantId && (ask.modelClass = some "" || a.servesClass ask.modelClass)

def Ask.unreadable (a : Account) : Bool := a.isUnreadableFor ask.tenantId ask.rule ask.now

def candidates : List Account :=
  accounts.filter fun a =>
    a.state = .available && a.accountId ∉ withheld accounts && !a.awaitsFirstReading ask.now && ask.serves a &&
      a.accountId ∉ ask.exclude && !ask.unreadable a && a.assignable ask.rule ask.now && !a.isFull ask.now

/-- Owned accounts first, then the most headroom, the fewest agents and the label. -/
def Ask.order (a : Account) : Nat ×ₗ Rat ×ₗ Int ×ₗ String :=
  toLex (if a.ownerTenant = ask.tenantId then 0 else 1,
    toLex (-a.headroom ask.rule ask.now, toLex (a.assigned, a.label)))

def choose : Option Account := (candidates accounts ask).minOn? ask.order

end Choose

/-! ## Why none -/

inductive Unavailable
  | noAccountsRegistered
  | noAccountAvailable
  | poolPaused
  | noRecentReading
  | accountsFull
deriving DecidableEq, Repr

def Unavailable.value : Unavailable → String
  | noAccountsRegistered => "no_accounts_registered"
  | noAccountAvailable => "no_account_available"
  | poolPaused => "pool_paused"
  | noRecentReading => "no_recent_reading"
  | accountsFull => "accounts_full"

section Eligibility

variable (accounts : List Account) (ask : Ask)

def Ask.windowClear (a : Account) : Option Instant := a.nextReset ask.rule ask.now

/-- When an account that the tenant marked can take the agent. -/
def Ask.markEnd (a : Account) : Option Instant :=
  if a.state ≠ .available || !ask.unreadable a then none
  else (a.unreadableUntil ask.tenantId ask.rule).map fun lapse => (ask.windowClear a).elim lapse (max lapse)

/-- What an assignable account without a clock waits for. -/
inductive Waits
  | poll
  | slot
  | nothing
deriving DecidableEq, Repr

def Ask.waits (a : Account) : Waits :=
  if (ask.windowClear a).isSome then .nothing
  else if a.isStale ask.rule ask.now then .poll
  else if a.awaitsFirstReading ask.now then .poll
  else if a.isFull ask.now then .slot
  else .nothing

def untried : List Account := (accounts.filter ask.serves).filter fun a => a.accountId ∉ ask.exclude

def marks : List Instant := (untried accounts ask).filterMap ask.markEnd

/-- The accounts that are left once the tenant's marks are taken into account. -/
def mine : List Account := (untried accounts ask).filter fun a => !ask.unreadable a

def assignable : List Account :=
  (mine accounts ask).filter fun a => a.state = .available && a.accountId ∉ withheld accounts

def eligibility : Unavailable × Option Instant :=
  if (accounts.filter ask.serves).isEmpty then (.noAccountsRegistered, none)
  else if (mine accounts ask).isEmpty then (.noAccountAvailable, (marks accounts ask).min?)
  else if (assignable accounts ask).isEmpty && (marks accounts ask).isEmpty then (.poolPaused, none)
  else
    let earliest := (marks accounts ask ++ (assignable accounts ask).filterMap ask.windowClear).min?
    if (assignable accounts ask).any fun a => ask.waits a = .poll then (.noRecentReading, earliest)
    else if (assignable accounts ask).any fun a => ask.waits a = .slot then (.accountsFull, earliest)
    else (.noAccountAvailable, earliest)

end Eligibility

/-! ## What is chosen -/

section Chosen

variable {accounts : List Account} {ask : Ask} {a : Account}

/-- Nothing keeps the account from a new agent. -/
structure Candidate (accounts : List Account) (ask : Ask) (a : Account) : Prop where
  available : a.state = .available
  mayServe : a.mayServe ask.tenantId = true
  servesClass : ask.modelClass = some "" ∨ a.servesClass ask.modelClass = true
  unexcluded : a.accountId ∉ ask.exclude
  unwithheld : a.accountId ∉ withheld accounts
  readable : ask.unreadable a = false
  assignable : a.assignable ask.rule ask.now = true
  free : a.isFull ask.now = false
  read : a.awaitsFirstReading ask.now = false

theorem serves_iff : ask.serves a = true ↔
    a.mayServe ask.tenantId = true ∧ (ask.modelClass = some "" ∨ a.servesClass ask.modelClass = true) := by
  rw [Ask.serves, Bool.and_eq_true, Bool.or_eq_true, decide_eq_true_iff]

theorem mem_candidates : a ∈ candidates accounts ask ↔ a ∈ accounts ∧ Candidate accounts ask a := by
  simp only [candidates, List.mem_filter, Bool.and_eq_true, decide_eq_true_eq, Bool.not_eq_true', serves_iff]
  constructor
  · rintro ⟨hmem, ⟨⟨⟨⟨⟨⟨hstate, hwithheld⟩, hread⟩, hserve, hclass⟩, hexclude⟩, hreadable⟩, hassignable⟩, hfree⟩
    exact ⟨hmem, hstate, hserve, hclass, hexclude, hwithheld, hreadable, hassignable, hfree, hread⟩
  · rintro ⟨hmem, hstate, hserve, hclass, hexclude, hwithheld, hreadable, hassignable, hfree, hread⟩
    exact ⟨hmem, ⟨⟨⟨⟨⟨⟨hstate, hwithheld⟩, hread⟩, hserve, hclass⟩, hexclude⟩, hreadable⟩, hassignable⟩, hfree⟩

theorem choose_spec (h : choose accounts ask = some a) :
    a ∈ accounts ∧ Candidate accounts ask a ∧
      ∀ b ∈ accounts, Candidate accounts ask b → ask.order a ≤ ask.order b := by
  obtain ⟨hmem, hcandidate⟩ := mem_candidates.mp (List.minOn?_mem h)
  refine ⟨hmem, hcandidate, fun b hb hother => ?_⟩
  have hsome : (candidates accounts ask).minOn? ask.order = some a := h
  have hleast : ask.order (((candidates accounts ask).minOn? ask.order).get _) ≤ ask.order b :=
    List.apply_get_minOn?_le_of_mem (mem_candidates.mpr ⟨hb, hother⟩)
  rwa [Option.get_of_eq_some _ hsome] at hleast

end Chosen

/-! ## What blocks an account, and until when -/

section Blocks

variable {a : Account} {ask : Ask}

/-- What keeps an account from an agent for a time. -/
inductive Block
  | window (name : String) (reading : Resets.WindowReading)
  | hold
  | mark

def Ask.BlockedBy (ask : Ask) (a : Account) : Block → Instant → Prop
  | .window name reading, t => (name, reading) ∈ a.blockingWindows ask.rule t
  | .hold, t => a.isLimited t = true
  | .mark, t => a.isUnreadableFor ask.tenantId ask.rule t = true

/-- The block holds from `now` until the instant, and at none after it. -/
def Ask.EndsAt (ask : Ask) (a : Account) (block : Block) (t : Instant) : Prop :=
  (∀ u, ask.now ≤ u → u < t → ask.BlockedBy a block u) ∧ ∀ u, t < u → ¬ ask.BlockedBy a block u

theorem window_endsAt {item : String × Resets.WindowReading} (hitem : item ∈ a.spentWindows ask.rule ask.now)
    (hobserved : a.observedAt.isSome = true) : ask.EndsAt a (.window item.1 item.2) item.2.resetsAt := by
  obtain ⟨hmem, -, hspent⟩ := Resets.Account.mem_spentWindows.mp hitem
  obtain ⟨observed, hobserved⟩ := Option.isSome_iff_exists.mp hobserved
  have hshare : 0 ≤ item.2.remaining := le_max_left 0 _
  constructor
  · intro u _ hu
    rw [Ask.BlockedBy, Resets.Account.blockingWindows, hobserved]
    refine List.mem_filter.mpr ⟨hmem, ?_⟩
    rw [Bool.and_eq_true, Bool.not_eq_true', Bool.eq_false_iff, ne_eq, Resets.Account.isReset_eq_true, not_le,
      decide_eq_true_eq]
    refine ⟨hu, lt_of_le_of_lt ?_ hspent⟩
    dsimp only
    split
    · linarith
    · rw [mul_one]
  · intro u hu hblocked
    rw [Ask.BlockedBy, Resets.Account.blockingWindows, hobserved] at hblocked
    have hopen := (List.mem_filter.mp hblocked).2
    rw [Bool.and_eq_true, Bool.not_eq_true', Bool.eq_false_iff, ne_eq, Resets.Account.isReset_eq_true] at hopen
    exact hopen.1 hu.le

theorem hold_endsAt {until_ : Instant} (h : a.limitedUntil = some until_) : ask.EndsAt a .hold until_ := by
  have hlimited : ∀ u, a.isLimited u = true ↔ u < until_ := fun u => by simp [Resets.Account.isLimited, h]
  exact ⟨fun u _ hu => (hlimited u).mpr hu, fun u hu hblocked => (hlimited u).mp hblocked |>.not_gt hu⟩

theorem mark_endsAt {lapse : Instant} (h : a.unreadableUntil ask.tenantId ask.rule = some lapse) :
    ask.EndsAt a .mark lapse := by
  have hmarked : ∀ u, a.isUnreadableFor ask.tenantId ask.rule u = true ↔ u ≤ lapse :=
    fun u => by simp [Account.isUnreadableFor, h]
  exact ⟨fun u _ hu => (hmarked u).mpr hu.le, fun u hu hblocked => (hmarked u).mp hblocked |>.not_gt hu⟩

/-- The clock of an account is when one of its windows or its 429 ends. -/
theorem windowClear_endsAt {t : Instant} (hread : a.observedAt = none → a.windows = [])
    (h : ask.windowClear a = some t) : ask.now < t ∧ ∃ block, ask.EndsAt a block t := by
  have hwindow : ∀ t, ((a.spentWindows ask.rule ask.now).map fun item => item.2.resetsAt).min? = some t →
      ask.now < t ∧ ∃ block, ask.EndsAt a block t := by
    intro t hmin
    obtain ⟨item, hitem, rfl⟩ := List.mem_map.mp (List.min?_mem hmin)
    obtain ⟨hmem, hlater, -⟩ := Resets.Account.mem_spentWindows.mp hitem
    refine ⟨hlater, _, window_endsAt hitem ?_⟩
    cases hobserved : a.observedAt with
    | some observed => rfl
    | none =>
      rw [hread hobserved] at hmem
      cases hmem
  have hblocked : a.assignable ask.rule ask.now = false := by
    cases hassignable : a.assignable ask.rule ask.now with
    | false => rfl
    | true =>
      rw [Ask.windowClear, Resets.Account.nextReset, hassignable, if_pos rfl] at h
      cases h
  rw [Ask.windowClear, Resets.Account.nextReset_of_blocked hblocked rfl] at h
  cases hlimit : a.limitedUntil.filter fun until_ : Instant => ask.now < until_ with
  | none =>
    rw [hlimit] at h
    exact hwindow t h
  | some until_ =>
    obtain ⟨hsome, hlater⟩ := Option.filter_eq_some_iff.mp hlimit
    rw [decide_eq_true_eq] at hlater
    rw [hlimit] at h
    dsimp only at h
    rw [Option.some.injEq] at h
    cases hmin : ((a.spentWindows ask.rule ask.now).map fun item => item.2.resetsAt).min? with
    | none =>
      rw [hmin] at h
      exact h ▸ ⟨hlater, .hold, hold_endsAt hsome⟩
    | some clear =>
      rw [hmin] at h
      rcases max_choice until_ clear with hmax | hmax
      · rw [← h, Option.elim_some, hmax]
        exact ⟨hlater, .hold, hold_endsAt hsome⟩
      · rw [← h, Option.elim_some, hmax]
        exact hwindow clear hmin

/-- A mark ends when it lapses, or when the clock of the account does if that is later. -/
theorem markEnd_endsAt {t : Instant} (hread : a.observedAt = none → a.windows = [])
    (hlapse : a.unreadableUntil ask.tenantId ask.rule ≠ some ask.now) (h : ask.markEnd a = some t) :
    a.state = .available ∧ ask.unreadable a = true ∧ ask.now < t ∧ ∃ block, ask.EndsAt a block t := by
  unfold Ask.markEnd at h
  split at h
  · cases h
  rename_i hmarked
  rw [Bool.or_eq_true, decide_eq_true_iff, Bool.not_eq_true', not_or, not_not, Bool.not_eq_false] at hmarked
  obtain ⟨lapse, hsome, rfl⟩ := Option.map_eq_some_iff.mp h
  have hlater : ask.now < lapse := by
    have hle : ask.now ≤ lapse := by
      have hunreadable := hmarked.2
      rw [Ask.unreadable, Account.isUnreadableFor, hsome] at hunreadable
      simpa using hunreadable
    refine lt_of_le_of_ne hle ?_
    rintro rfl
    exact hlapse hsome
  refine ⟨hmarked.1, hmarked.2, ?_⟩
  cases hclear : ask.windowClear a with
  | none => exact ⟨hlater, .mark, mark_endsAt hsome⟩
  | some clear =>
    rw [Option.elim_some]
    rcases max_choice lapse clear with hmax | hmax
    · rw [hmax]
      exact ⟨hlater, .mark, mark_endsAt hsome⟩
    · rw [hmax]
      exact windowClear_endsAt hread hclear

end Blocks

/-! ## Where the two agree -/

section Agreement

variable {accounts : List Account} {ask : Ask} {a : Account}

/-- An account of the pool of this question: it may serve the tenant and the class, and is not excluded. -/
structure InQuestion (accounts : List Account) (ask : Ask) (a : Account) : Prop where
  mem : a ∈ accounts
  serves : ask.serves a = true
  unexcluded : a.accountId ∉ ask.exclude

theorem mem_untried : a ∈ untried accounts ask ↔ InQuestion accounts ask a := by
  rw [untried, List.mem_filter, List.mem_filter, decide_eq_true_iff]
  exact ⟨fun h => ⟨h.1.1, h.1.2, h.2⟩, fun h => ⟨⟨h.mem, h.serves⟩, h.unexcluded⟩⟩

theorem mem_mine : a ∈ mine accounts ask ↔ InQuestion accounts ask a ∧ ask.unreadable a = false := by
  rw [mine, List.mem_filter, mem_untried, Bool.not_eq_true']

theorem mem_assignable : a ∈ assignable accounts ask ↔ InQuestion accounts ask a ∧ ask.unreadable a = false ∧
    a.state = .available ∧ a.accountId ∉ withheld accounts := by
  rw [assignable, List.mem_filter, mem_mine, Bool.and_eq_true, decide_eq_true_iff, decide_eq_true_iff, and_assoc]

theorem markEnd_eq_none (h : a.state = .available → ask.unreadable a = false) : ask.markEnd a = none := by
  refine if_pos ?_
  rw [Bool.or_eq_true, decide_eq_true_iff, Bool.not_eq_true']
  exact or_iff_not_imp_left.mpr fun hstate => h (not_not.mp hstate)

theorem markEnd_isSome (hstate : a.state = .available) (hmarked : ask.unreadable a = true) :
    ∃ t, ask.markEnd a = some t := by
  obtain ⟨lapse, hlapse, -⟩ := (Option.any_eq_true _ _).mp hmarked
  refine ⟨(ask.windowClear a).elim lapse (max lapse), ?_⟩
  rw [Ask.markEnd, if_neg (by simp [hstate, hmarked]), hlapse]
  rfl

theorem marks_eq_nil (h : ∀ a, InQuestion accounts ask a → a.state = .available → ask.unreadable a = false) :
    marks accounts ask = [] := by
  rw [marks, List.filterMap_eq_nil_iff]
  exact fun a ha => markEnd_eq_none (h a (mem_untried.mp ha))

theorem readable_of_marks_eq_nil (h : marks accounts ask = []) (ha : InQuestion accounts ask a)
    (hstate : a.state = .available) : ask.unreadable a = false := by
  cases hmarked : ask.unreadable a with
  | false => rfl
  | true =>
    obtain ⟨t, ht⟩ := markEnd_isSome hstate hmarked
    rw [marks, List.filterMap_eq_nil_iff] at h
    rw [h a (mem_untried.mpr ha)] at ht
    cases ht

theorem eligibility_noAccountsRegistered_iff :
    (eligibility accounts ask).1 = .noAccountsRegistered ↔ ∀ a ∈ accounts, ask.serves a = false := by
  have hserves : (accounts.filter ask.serves).isEmpty = true ↔ ∀ a ∈ accounts, ask.serves a = false := by
    rw [List.isEmpty_iff, List.filter_eq_nil_iff]
    exact forall₂_congr fun a _ => Iff.of_eq (Bool.not_eq_true _)
  rw [← hserves]
  unfold eligibility
  split
  · rename_i hnone
    exact ⟨fun _ => hnone, fun _ => rfl⟩
  rename_i hsome
  refine ⟨fun h => ?_, fun h => absurd h hsome⟩
  split at h
  · cases h
  split at h
  · cases h
  dsimp only at h
  split at h
  · cases h
  split at h
  · cases h
  · cases h

/-- The pool is paused where some account is left and none of those left takes agents or is marked while it does. -/
theorem eligibility_poolPaused_iff : (eligibility accounts ask).1 = .poolPaused ↔
    (∃ a, InQuestion accounts ask a ∧ ask.unreadable a = false) ∧
      assignable accounts ask = [] ∧ marks accounts ask = [] := by
  have hmine : (mine accounts ask).isEmpty = false ↔ ∃ a, InQuestion accounts ask a ∧ ask.unreadable a = false := by
    rw [Bool.eq_false_iff, ne_eq, List.isEmpty_iff, List.eq_nil_iff_forall_not_mem, not_forall_not]
    exact exists_congr fun a => mem_mine
  rw [← hmine]
  constructor
  · intro h
    unfold eligibility at h
    split at h
    · cases h
    split at h
    · cases h
    rename_i hsome
    split at h
    · rename_i hnone
      rw [Bool.and_eq_true, List.isEmpty_iff, List.isEmpty_iff] at hnone
      exact ⟨Bool.eq_false_iff.mpr hsome, hnone⟩
    dsimp only at h
    split at h
    · cases h
    split at h
    · cases h
    · cases h
  · rintro ⟨hsome, hassignable, hmarks⟩
    obtain ⟨a, ha, -⟩ := hmine.mp hsome
    have hserves : ¬ (accounts.filter ask.serves).isEmpty = true := by
      rw [List.isEmpty_iff]
      exact List.ne_nil_of_mem (List.mem_filter.mpr ⟨ha.mem, ha.serves⟩)
    rw [eligibility, if_neg hserves, hsome, if_neg Bool.false_ne_true, hassignable, hmarks]
    rfl

/-- An instant of the answer is the end of a mark, or the clock of an account that takes agents. -/
theorem eligibility_instant {t : Instant} (h : (eligibility accounts ask).2 = some t) :
    t ∈ marks accounts ask ++ (assignable accounts ask).filterMap ask.windowClear := by
  unfold eligibility at h
  split at h
  · cases h
  split at h
  · exact List.mem_append_left _ (List.min?_mem h)
  split at h
  · cases h
  dsimp only at h
  split at h
  · exact List.min?_mem h
  split at h
  · exact List.min?_mem h
  · exact List.min?_mem h

/-- The tenant's marks on accounts that take agents are not on withheld ones and do not end right now, and windows come
with the date they were read on. -/
structure WellMarked (accounts : List Account) (ask : Ask) : Prop where
  unwithheld : ∀ a, InQuestion accounts ask a → a.state = .available → ask.unreadable a = true →
    a.accountId ∉ withheld accounts
  later : ∀ a, InQuestion accounts ask a → a.unreadableUntil ask.tenantId ask.rule ≠ some ask.now
  read : ∀ a, InQuestion accounts ask a → a.observedAt = none → a.windows = []

theorem instant_endsAt (hmarked : WellMarked accounts ask) {t : Instant} (h : (eligibility accounts ask).2 = some t) :
    ask.now < t ∧ ∃ a, InQuestion accounts ask a ∧ a.state = .available ∧ a.accountId ∉ withheld accounts ∧
      ∃ block, ask.EndsAt a block t := by
  rcases List.mem_append.mp (eligibility_instant h) with hmark | hclock
  · obtain ⟨a, ha, hend⟩ := List.mem_filterMap.mp hmark
    have ha := mem_untried.mp ha
    obtain ⟨hstate, hunreadable, hlater, hblock⟩ := markEnd_endsAt (hmarked.read a ha) (hmarked.later a ha) hend
    exact ⟨hlater, a, ha, hstate, hmarked.unwithheld a ha hstate hunreadable, hblock⟩
  · obtain ⟨a, ha, hclear⟩ := List.mem_filterMap.mp hclock
    obtain ⟨ha, -, hstate, hwithheld⟩ := mem_assignable.mp ha
    obtain ⟨hlater, hblock⟩ := windowClear_endsAt (hmarked.read a ha) hclear
    exact ⟨hlater, a, ha, hstate, hwithheld, hblock⟩

theorem choose_eligibility_agree (accounts : List Account) (ask : Ask) :
    (∀ a, choose accounts ask = some a → a ∈ accounts ∧ Candidate accounts ask a ∧
      ∀ b ∈ accounts, Candidate accounts ask b → ask.order a ≤ ask.order b) ∧
    (choose accounts ask = none →
      ((eligibility accounts ask).1 = .noAccountsRegistered ↔ ∀ a ∈ accounts, ask.serves a = false) ∧
      ((eligibility accounts ask).1 = .poolPaused → (∃ a ∈ accounts, ask.serves a = true) ∧
        ∀ a, InQuestion accounts ask a → a.state = .available → a.accountId ∈ withheld accounts) ∧
      ((∀ a, InQuestion accounts ask a → a.state = .available → ask.unreadable a = true →
          a.accountId ∉ withheld accounts) →
        (∃ a, InQuestion accounts ask a ∧ ask.unreadable a = false) →
        (∀ a, InQuestion accounts ask a → a.state = .available → a.accountId ∈ withheld accounts) →
        (eligibility accounts ask).1 = .poolPaused) ∧
      (WellMarked accounts ask → ∀ t, (eligibility accounts ask).2 = some t →
        ask.now < t ∧ ∃ a, InQuestion accounts ask a ∧ a.state = .available ∧ a.accountId ∉ withheld accounts ∧
          ∃ block, ask.EndsAt a block t)) := by
  refine ⟨fun a => choose_spec, fun _ => ⟨eligibility_noAccountsRegistered_iff, ?_, ?_, ?_⟩⟩
  · intro h
    obtain ⟨⟨a, ha, -⟩, hassignable, hmarks⟩ := eligibility_poolPaused_iff.mp h
    refine ⟨⟨a, ha.mem, ha.serves⟩, fun b hb hstate => ?_⟩
    by_contra hwithheld
    have hmem := mem_assignable.mpr ⟨hb, readable_of_marks_eq_nil hmarks hb hstate, hstate, hwithheld⟩
    rw [hassignable] at hmem
    cases hmem
  · intro hmarked hsome hnone
    refine eligibility_poolPaused_iff.mpr ⟨hsome, ?_, marks_eq_nil fun a ha hstate => ?_⟩
    · rw [List.eq_nil_iff_forall_not_mem]
      intro a ha
      obtain ⟨ha, -, hstate, hwithheld⟩ := mem_assignable.mp ha
      exact hwithheld (hnone a ha hstate)
    · exact Bool.eq_false_iff.mpr fun hunreadable => hmarked a ha hstate hunreadable (hnone a ha hstate)
  · exact fun hmarked t => instant_endsAt hmarked

/-- An account whose window is used up until 100. -/
def spentAccount : Account where
  windows := [("five_hour", ⟨1, 100⟩)]
  observedAt := some 0
  accountId := "t:spent"
  ownerTenant := "t"
  label := "spent"

def restingAccount : Account where
  windows := []
  observedAt := none
  accountId := "t:resting"
  ownerTenant := "t"
  label := "resting"
  state := .paused

def spentPool : List Account := [spentAccount, restingAccount]

def spentAsk : Ask := { tenantId := "t", now := 10 }

theorem mem_spentPool {a : Account} (h : a ∈ spentPool) : a = spentAccount ∨ a = restingAccount := by
  simpa [spentPool] using h

theorem spentPool_wellMarked : WellMarked spentPool spentAsk where
  unwithheld := by
    intro a ha _ hunreadable
    revert hunreadable
    obtain rfl | rfl := mem_spentPool ha.mem <;> decide
  later := by
    intro a ha
    obtain rfl | rfl := mem_spentPool ha.mem <;> decide
  read := by
    intro a ha hnone
    obtain rfl | rfl := mem_spentPool ha.mem
    · cases hnone
    · rfl

theorem choose_eligibility_agree_spent :
    choose spentPool spentAsk = none ∧ (eligibility spentPool spentAsk).2 = some 100 ∧
      ∃ a, InQuestion spentPool spentAsk a ∧ a.state = .available ∧ ∃ block, spentAsk.EndsAt a block 100 := by
  have hnone : choose spentPool spentAsk = none := by decide +kernel
  have hend : (eligibility spentPool spentAsk).2 = some 100 := by decide +kernel
  obtain ⟨-, -, -, hinstant⟩ := (choose_eligibility_agree spentPool spentAsk).2 hnone
  obtain ⟨-, a, ha, hstate, -, hblock⟩ := hinstant spentPool_wellMarked 100 hend
  exact ⟨hnone, hend, a, ha, hstate, hblock⟩

/-- One account, which the attempt has tried already. -/
def triedAccount : Account where
  windows := []
  observedAt := none
  accountId := "t:main"
  ownerTenant := "t"
  label := "main"

def triedAsk : Ask := { tenantId := "t", now := 0, exclude := ["t:main"] }

theorem tried_pool_not_paused : ¬ ∀ accounts ask, choose accounts ask = none →
    ((eligibility accounts ask).1 = .poolPaused ↔ (∃ a ∈ accounts, ask.serves a = true) ∧
      ∀ a, InQuestion accounts ask a → a.state = .available → a.accountId ∈ withheld accounts) := by
  intro hall
  have hpaused := (hall [triedAccount] triedAsk (by decide)).mpr
    ⟨⟨triedAccount, List.mem_singleton_self _, by decide⟩, fun a ha hstate => ?_⟩
  · revert hpaused
    decide
  · have hexcluded := ha.unexcluded
    rw [List.mem_singleton.mp ha.mem] at hexcluded
    exact absurd hexcluded (by decide)

end Agreement

end SwarmCloud.Accounts.Choosing
