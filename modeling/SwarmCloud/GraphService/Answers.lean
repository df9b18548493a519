import Mathlib.Logic.Function.Basic
import SwarmCloud.GraphService.Carry
import SwarmCloud.GraphService.Results
import SwarmCloud.GraphService.Shards
import SwarmCloud.Lib.Json

/-! # Answering a question of the graph

`swarm_graph/server.py`, `answer`, as requests run it, each on a thread of its
own over one result cache: the exact key, then the carry candidate, then the
computation over whatever the blob source gives under the deadline. The question
is what the ticket, the tool and the arguments ask; whichever way a whole answer
came about, it is the one the tool computes over the ticket's own snapshot.
-/

namespace SwarmCloud.GraphService

open Lib

structure GraphTicket where
  tenantId : String
  repoId : String
  manifestDigest : String
deriving DecidableEq

/-- What a handler comes to: an answer, an ambiguous name, or arguments it refuses. The first two are bytes. -/
inductive Outcome
  | computed (data : String)
  | unresolved (data : String)
  | refused (message : String)
deriving DecidableEq

/-- The bytes that are kept of an outcome. -/
def Outcome.data? : Outcome → Option String
  | computed data => some data
  | unresolved data => some data
  | refused _ => none

inductive Via
  | hit | carried | miss | none
deriving DecidableEq

inductive Served
  | whole (data : String) (via : Via)
  | partly (data : String)
  | lateUnresolved
  | refused (message : String)
  | raised
deriving DecidableEq

/-- The code and the stored data the service runs over. -/
structure Deployment (Args ε σ ρ : Type) where
  toolsVersion : String
  canonicalArgs : String → Args → Option String
  handlers : String → Option (Args → Reading ReadKey (ReadAnswer ε σ) String (Shard ρ) Outcome)
  /-- The snapshot of a manifest, checked against its digest. -/
  snapshot : String → Index ε σ
  /-- The rows of a blob, checked against its name. -/
  content : String → Shard ρ
  digest : Value ε σ → String

structure Question (Args : Type) where
  ticket : GraphTicket
  tool : String
  args : Args

inductive Request (Args : Type)
  | idle
  | looking (question : Question Args) (key : ResultKey)
  | carrying (question : Question Args) (key : ResultKey) (data : String) (reads : ReadSet)
  | computing (question : Question Args)
  | answered (question : Question Args) (served : Served)

structure Service (Args : Type) where
  results : ResultCache ReadSet
  request : Nat → Request Args

namespace Service

variable {Args ε σ ρ : Type} (d : Deployment Args ε σ ρ) (bound maxEntry : Nat)

def start : Service Args := ⟨.empty, fun _ => .idle⟩

/-- `result_key`: none for an unknown tool, or arguments that are no object. -/
def resultKey (q : Question Args) : Option ResultKey :=
  if (d.handlers q.tool).isSome then
    (d.canonicalArgs q.tool q.args).map fun args =>
      ⟨q.ticket.tenantId, q.ticket.manifestDigest, q.tool, args, d.toolsVersion⟩
  else none

/-- The computation of a question; a tool that is not there is refused. -/
def computation (q : Question Args) : Reading ReadKey (ReadAnswer ε σ) String (Shard ρ) Outcome :=
  match d.handlers q.tool with
  | none => .done (.refused ("no tool " ++ q.tool))
  | some handler => handler q.args

/-- The answer computed over the ticket's snapshot, every blob at hand. -/
def direct (q : Question Args) : Outcome :=
  (computation d q).eval (d.snapshot q.ticket.manifestDigest).answer d.content

def put (key : ResultKey) (data repoId : String) (reads : ReadSet) (c : ResultCache ReadSet) : ResultCache ReadSet :=
  (ResultCache.putResult bound maxEntry readSetBytes key data repoId (some reads) c).2

def going (w : Nat) (request : Request Args) (s : Service Args) : Service Args :=
  { s with request := Function.update s.request w request }

/-- The exact key. -/
def ask (w : Nat) (q : Question Args) (s : Service Args) : Service Args :=
  match resultKey d q with
  | none => s.going w (.computing q)
  | some key => match s.results.get key with
    | (some data, results) => going w (.answered q (.whole data .hit)) { s with results := results }
    | (none, _) => s.going w (.looking q key)

/-- The carry key. -/
def look (w : Nat) (q : Question Args) (key : ResultKey) (s : Service Args) : Service Args :=
  match ResultCache.carryCandidate key q.ticket.repoId s.results with
  | none => s.going w (.computing q)
  | some (_, data, reads) => s.going w (.carrying q key data reads)

def carry (w : Nat) (q : Question Args) (key : ResultKey) (data : String) (reads : ReadSet) (s : Service Args) :
    Service Args :=
  if (d.snapshot q.ticket.manifestDigest).unchanged d.digest reads then
    going w (.answered q (.whole data .carried))
      { s with results := put bound maxEntry key data q.ticket.repoId reads s.results }
  else s.going w (.computing q)

/-- The computation, over what the blob source gave. Whatever was late is never kept. -/
def compute (w : Nat) (q : Question Args) (source : Nat → String → Fetched (Shard ρ)) (s : Service Args) :
    Service Args :=
  let x := d.snapshot q.ticket.manifestDigest
  let attempt := (computation d q).attempt x.answer source ⟨[], 0⟩ 0
  let keep (data : String) : ResultCache ReadSet := match resultKey d q with
    | none => s.results
    | some key => put bound maxEntry key data q.ticket.repoId (x.recorded d.digest attempt.reads) s.results
  let via : Via := if (resultKey d q).isSome then .miss else .none
  match attempt.result with
  | none => s.going w (.answered q .raised)
  | some (.refused message) => s.going w (.answered q (.refused message))
  | some (.unresolved data) =>
    if attempt.late then s.going w (.answered q .lateUnresolved)
    else going w (.answered q (.whole data via)) { s with results := keep data }
  | some (.computed data) =>
    if attempt.late then s.going w (.answered q (.partly data))
    else going w (.answered q (.whole data via)) { s with results := keep data }

def Request.isFree : Request Args → Bool
  | .idle | .answered .. => true
  | _ => false

inductive Act (Args ρ : Type)
  | ask (request : Nat) (question : Question Args)
  | look (request : Nat)
  | carry (request : Nat)
  | compute (request : Nat) (source : Nat → String → Fetched (Shard ρ))

/-- A blob that is got is the blob of its name: `decode_blob` checks it. -/
inductive Step : Service Args → Act Args ρ → Service Args → Prop
  | ask {s : Service Args} {w : Nat} (q : Question Args) : Request.isFree (s.request w) → Step s (.ask w q) (s.ask d w q)
  | look {s : Service Args} {w : Nat} {q : Question Args} {key : ResultKey} : s.request w = .looking q key →
      Step s (.look w) (s.look w q key)
  | carry {s : Service Args} {w : Nat} {q : Question Args} {key : ResultKey} {data : String} {reads : ReadSet} :
      s.request w = .carrying q key data reads → Step s (.carry w) (s.carry d bound maxEntry w q key data reads)
  | compute {s : Service Args} {w : Nat} {q : Question Args} {source : Nat → String → Fetched (Shard ρ)} :
      s.request w = .computing q → (∀ n name shard, source n name = .got shard → shard = d.content name) →
      Step s (.compute w source) (s.compute d bound maxEntry w q source)

/-! ## What the cache and the requests hold -/

/-- `data` is the answer to the questions of a key. -/
def Answers (key : ResultKey) (data : String) : Prop :=
  ∀ q : Question Args, resultKey d q = some key → (direct d q).data? = some data

/-- `reads` is what computing the answer of a key reads. -/
def Explains (key : ResultKey) (reads : ReadSet) : Prop :=
  ∀ q : Question Args, resultKey d q = some key →
    reads = (d.snapshot key.manifestDigest).recorded d.digest
      ((computation d q).reads (d.snapshot key.manifestDigest).answer d.content)

structure Stored (c : ResultCache ReadSet) : Prop where
  kept : ResultCache.Kept bound readSetBytes c
  answers : ∀ entry ∈ c.entries, Answers d entry.1 entry.2.1
  explains : ∀ key reads, c.kept.readSets.lookup key = some reads → Explains d key reads

structure Right (s : Service Args) : Prop where
  stored : Stored d bound s.results
  looking : ∀ w q key, s.request w = .looking q key → resultKey d q = some key
  carrying : ∀ w q key data reads, s.request w = .carrying q key data reads →
    resultKey d q = some key ∧
      ∃ digest, Answers d { key with manifestDigest := digest } data ∧
        Explains d { key with manifestDigest := digest } reads
  answered : ∀ w q data via, s.request w = .answered q (.whole data via) → (direct d q).data? = some data

/-- What is asked of the deployment: handlers read their arguments through `canonical_args`, and digests
tell values apart. -/
structure Sound (d : Deployment Args ε σ ρ) : Prop where
  canonical : ∀ tool handler args args' canonical, d.handlers tool = some handler →
    d.canonicalArgs tool args = some canonical → d.canonicalArgs tool args' = some canonical →
    handler args = handler args'
  injective : Function.Injective d.digest
  present : ∀ value, d.digest value ≠ absent

variable {d : Deployment Args ε σ ρ} {bound maxEntry : Nat} {s s' : Service Args} {q q' : Question Args}
  {key : ResultKey} {data : String} {reads : ReadSet} {w : Nat}

theorem resultKey_eq_some (h : resultKey d q = some key) :
    ∃ handler args, d.handlers q.tool = some handler ∧ d.canonicalArgs q.tool q.args = some args ∧
      key = ⟨q.ticket.tenantId, q.ticket.manifestDigest, q.tool, args, d.toolsVersion⟩ := by
  unfold resultKey at h
  split at h
  · rename_i hsome
    obtain ⟨handler, hhandler⟩ := Option.isSome_iff_exists.mp hsome
    obtain ⟨args, hargs, rfl⟩ := Option.map_eq_some_iff.mp h
    exact ⟨handler, args, hhandler, hargs, rfl⟩
  · cases h

/-- The key settles the computation and the snapshot. -/
theorem same_computation (hd : Sound d) (h : resultKey d q = some key) (h' : resultKey d q' = some key) :
    computation d q = computation d q' ∧ q.ticket.manifestDigest = key.manifestDigest := by
  obtain ⟨handler, args, hhandler, hargs, rfl⟩ := resultKey_eq_some h
  obtain ⟨handler', args', hhandler', hargs', heq⟩ := resultKey_eq_some h'
  simp only [ResultKey.mk.injEq] at heq
  obtain ⟨-, -, htool, rfl, -⟩ := heq
  rw [← htool] at hargs' hhandler'
  refine ⟨?_, rfl⟩
  simp only [computation, ← htool, hhandler]
  exact hd.canonical _ _ _ _ _ hhandler hargs hargs'

/-- The same question on another manifest. -/
theorem resultKey_other (h : resultKey d q = some key) (digest : String) :
    resultKey d { q with ticket := { q.ticket with manifestDigest := digest } } =
      some { key with manifestDigest := digest } := by
  obtain ⟨handler, args, hhandler, hargs, rfl⟩ := resultKey_eq_some h
  simp [resultKey, hhandler, hargs]

theorem Stored.get (h : Stored d bound s.results) (key : ResultKey) : Stored d bound (s.results.get key).2 := by
  have hkept := h.kept.get key
  unfold Lru.get at hkept ⊢
  split at hkept
  · exact h
  · have hperm := Dict.perm_touch h.kept.sized.nodup key
    exact ⟨hkept, fun entry hentry => h.answers entry (hperm.mem_iff.mp hentry), h.explains⟩

theorem Stored.put (hmax : maxEntry ≤ bound) (h : Stored d bound s.results) (hanswers : Answers d key data)
    (hexplains : Explains d key reads) (repoId : String) :
    Stored d bound (put bound maxEntry key data repoId reads s.results) := by
  unfold Service.put
  by_cases hbig : maxEntry < ResultCache.price readSetBytes data (ResultCache.explaining repoId (some reads))
  · rw [ResultCache.putResult_big hbig]
    exact h
  · obtain ⟨c', hput, hkept, hreplaced, -⟩ := h.kept.putResult hmax key (not_lt.mp hbig)
    rw [hput]
    constructor
    · exact hkept
    · obtain ⟨size, older, gone, hstand, hgone⟩ := hreplaced.stands
      intro entry hentry
      rw [hstand] at hentry
      obtain hold | hnew := List.mem_append.mp hentry
      · have hwithout : entry ∈ s.results.entries.without key := by
          rw [hgone]
          exact List.mem_append_right _ hold
        exact h.answers entry (List.mem_of_mem_filter hwithout)
      · rw [List.mem_singleton.mp hnew]
        exact hanswers
    · intro k r hk
      rw [hreplaced.readSets] at hk
      split at hk
      · rename_i heq
        unfold ResultCache.explaining at hk
        split at hk
        · cases hk
        · obtain rfl := Option.some.inj hk
          rw [heq]
          exact hexplains
      · split at hk
        · exact h.explains k r hk
        · cases hk

/-- A request that goes on with what it knows. -/
theorem Right.going (h : Right d bound s) {c : ResultCache ReadSet} (hc : Stored d bound c) {request : Request Args}
    (hlooking : ∀ q key, request = .looking q key → resultKey d q = some key)
    (hcarrying : ∀ q key data reads, request = .carrying q key data reads → resultKey d q = some key ∧
      ∃ digest, Answers d { key with manifestDigest := digest } data ∧
        Explains d { key with manifestDigest := digest } reads)
    (hanswered : ∀ q data via, request = .answered q (.whole data via) → (direct d q).data? = some data) :
    Right d bound (going w request { s with results := c }) := by
  constructor
  · exact hc
  · intro v q key hv
    simp only [Service.going, Function.update_apply] at hv
    split at hv
    · exact hlooking q key hv
    · exact h.looking v q key hv
  · intro v q key data reads hv
    simp only [Service.going, Function.update_apply] at hv
    split at hv
    · exact hcarrying q key data reads hv
    · exact h.carrying v q key data reads hv
  · intro v q data via hv
    simp only [Service.going, Function.update_apply] at hv
    split at hv
    · exact hanswered q data via hv
    · exact h.answered v q data via hv

/-- A request that has no answer yet, and knows nothing. -/
theorem Right.computing (h : Right d bound s) (w : Nat) (q : Question Args) :
    Right d bound (s.going w (.computing q)) :=
  h.going h.stored nofun nofun nofun

theorem Right.ask (h : Right d bound s) (w : Nat) (q : Question Args) : Right d bound (s.ask d w q) := by
  unfold Service.ask
  cases hkey : resultKey d q with
  | none => exact h.computing w q
  | some key =>
    have hget := h.stored.get key
    dsimp only
    cases hheld : s.results.get key with
    | mk data results =>
      rw [hheld] at hget
      cases data with
      | none =>
        refine h.going h.stored ?_ nofun nofun
        rintro q' key' ⟨⟩
        exact hkey
      | some data =>
        refine h.going hget nofun nofun ?_
        rintro q' data' via ⟨⟩
        have hentry : ∃ size, s.results.entries.lookup key = some (data, size) := by
          unfold Lru.get at hheld
          split at hheld
          · cases hheld
          · rename_i held hlookup
            obtain ⟨hdata, -⟩ := Prod.mk.inj hheld
            rw [← Option.some.inj hdata]
            exact ⟨held.2, hlookup⟩
        obtain ⟨size, hentry⟩ := hentry
        exact h.stored.answers _ (Dict.mem_of_lookup hentry) q hkey

theorem Right.look (h : Right d bound s) (hw : s.request w = .looking q key) : Right d bound (s.look w q key) := by
  unfold Service.look
  cases hcandidate : ResultCache.carryCandidate key q.ticket.repoId s.results with
  | none => exact h.computing w q
  | some candidate =>
    obtain ⟨held, data, reads⟩ := candidate
    obtain ⟨hcarry, hne, ⟨size, hentry⟩, hreads⟩ := ResultCache.carryCandidate_eq_some hcandidate
    obtain ⟨-, ⟨repo, hquestion⟩, -⟩ := h.stored.kept.candidate hcarry hne
    have hheld : held = { key with manifestDigest := held.manifestDigest } := by
      obtain ⟨tenant, digest, tool, args, version⟩ := held
      simp only [carryKey, CarryKey.mk.injEq] at hquestion
      simp only [ResultKey.mk.injEq]
      exact ⟨hquestion.1, trivial, hquestion.2.2.1, hquestion.2.2.2.1, hquestion.2.2.2.2⟩
    refine h.going h.stored ?_ ?_ ?_
    · intro q' key' hlooking
      cases hlooking
    · rintro q' key' data' reads' ⟨⟩
      refine ⟨h.looking w q key hw, held.manifestDigest, ?_, ?_⟩
      · rw [← hheld]
        exact h.stored.answers _ (Dict.mem_of_lookup hentry)
      · rw [← hheld]
        exact h.stored.explains held reads hreads
    · intro q' data' via hanswered
      cases hanswered

/-- What the candidate of another digest says holds here, where its read set is unchanged. -/
theorem carried_answers (hd : Sound d) (hkey : resultKey d q = some key) {digest : String}
    (hanswers : Answers d { key with manifestDigest := digest } data)
    (hexplains : Explains d { key with manifestDigest := digest } reads)
    (hunchanged : (d.snapshot q.ticket.manifestDigest).unchanged d.digest reads = true) :
    Answers d key data ∧ Explains d key reads := by
  have hother := resultKey_other hkey digest
  have hreads := hexplains _ hother
  have hdata := hanswers _ hother
  have hcomputation : computation d { q with ticket := { q.ticket with manifestDigest := digest } } = computation d q :=
    rfl
  have hdigest := (same_computation hd hkey hkey).2
  simp only [hcomputation, direct] at hreads hdata
  rw [hreads, hdigest] at hunchanged
  obtain ⟨heval, hrecorded⟩ := carry_eq hd.injective hd.present hunchanged
  constructor
  · intro q' hq'
    obtain ⟨hsame, hdigest'⟩ := same_computation hd hq' hkey
    rw [direct, hsame, hdigest', heval]
    exact hdata
  · intro q' hq'
    rw [(same_computation hd hq' hkey).1, hrecorded]
    exact hreads

theorem Right.carry (hd : Sound d) (hmax : maxEntry ≤ bound) (h : Right d bound s)
    (hw : s.request w = .carrying q key data reads) : Right d bound (s.carry d bound maxEntry w q key data reads) := by
  unfold Service.carry
  obtain ⟨hkey, digest, hanswers, hexplains⟩ := h.carrying w q key data reads hw
  split
  · rename_i hunchanged
    obtain ⟨hanswers', hexplains'⟩ := carried_answers hd hkey hanswers hexplains hunchanged
    refine h.going (h.stored.put hmax hanswers' hexplains' _) nofun nofun ?_
    rintro q' data' via ⟨⟩
    exact hanswers' q hkey
  · exact h.computing w q

theorem Right.compute (hd : Sound d) (hmax : maxEntry ≤ bound) (h : Right d bound s)
    {source : Nat → String → Fetched (Shard ρ)} (hsource : ∀ n name shard, source n name = .got shard → shard = d.content name) :
    Right d bound (s.compute d bound maxEntry w q source) := by
  unfold Service.compute
  set x := d.snapshot q.ticket.manifestDigest with hx
  set attempt := (computation d q).attempt x.answer source ⟨[], 0⟩ 0 with hattempt
  -- a whole attempt is the computation, and what it read explains it
  have hwhole : ∀ outcome data via, attempt.result = some outcome → attempt.late = false → outcome.data? = some data →
      Right d bound (Service.going w (.answered q (.whole data via)) { s with results := match resultKey d q with
        | none => s.results
        | some key => Service.put bound maxEntry key data q.ticket.repoId (x.recorded d.digest attempt.reads) s.results }) := by
    intro outcome data via hresult hlate hdata
    obtain ⟨heval, hreads⟩ := Reading.attempt_eq hsource hresult hlate
    have hdirect : (direct d q).data? = some data := by rw [direct, ← hx, ← heval, hdata]
    refine h.going ?_ nofun nofun ?_
    · cases hkey : resultKey d q with
      | none => exact h.stored
      | some key =>
        refine h.stored.put hmax ?_ ?_ _
        · intro q' hq'
          obtain ⟨hsame, hdigest⟩ := same_computation hd hq' hkey
          rw [direct, hsame, hdigest, ← (same_computation hd hkey hkey).2]
          exact hdirect
        · intro q' hq'
          rw [(same_computation hd hq' hkey).1, ← (same_computation hd hkey hkey).2, hreads]
    · rintro q' data' via' ⟨⟩
      exact hdirect
  have hother : ∀ served : Served, (∀ data via, served ≠ .whole data via) →
      Right d bound (s.going w (.answered q served)) := by
    intro served hserved
    refine h.going h.stored nofun nofun ?_
    rintro q' data via heq
    cases heq
    exact absurd rfl (hserved data via)
  dsimp only
  split
  · exact hother _ nofun
  · exact hother _ nofun
  · rename_i data hresult
    split
    · exact hother _ nofun
    · rename_i hlate
      exact hwhole _ data _ hresult (Bool.eq_false_of_not_eq_true hlate) rfl
  · rename_i data hresult
    split
    · exact hother _ nofun
    · rename_i hlate
      exact hwhole _ data _ hresult (Bool.eq_false_of_not_eq_true hlate) rfl

theorem right_start : Right d bound (start : Service Args) where
  stored := ⟨ResultCache.kept_empty bound readSetBytes, nofun, nofun⟩
  looking := nofun
  carrying := nofun
  answered := nofun

theorem Right.step (hd : Sound d) (hmax : maxEntry ≤ bound) (h : Right d bound s) {act : Act Args ρ}
    (hstep : Step d bound maxEntry s act s') : Right d bound s' := by
  cases hstep with
  | ask q _ => exact h.ask _ q
  | look hw => exact h.look hw
  | carry hw => exact h.carry hd hmax hw
  | compute _ hsource => exact h.compute hd hmax hsource

/-- Whatever the order of the requests' steps, and whatever the blob source left out, a whole answer is the
one the tool computes over the ticket's own snapshot, and the cache stays within its bound. -/
theorem answers_of_run (hd : Sound d) (hmax : maxEntry ≤ bound) {acts : List (Act Args ρ)}
    (hrun : Run (Step d bound maxEntry) start acts s) :
    (∀ w q data via, s.request w = .answered q (.whole data via) → (direct d q).data? = some data) ∧
      s.results.bytes ≤ bound := by
  have hright : Right d bound s := Run.invariant (fun _ _ _ h hstep => h.step hd hmax hstep) right_start hrun
  exact ⟨hright.answered, hright.stored.kept.sized.within⟩

section Listing

/-- A digest of listings that spells them out. -/
def spelled : Value Empty Unit → String
  | .table items => String.ofList ('t' :: items.flatMap fun item => quote item.1.toList)
  | .termStats _ => "s"

theorem spelled_injective : Function.Injective spelled := by
  have hquote : ∀ a b rest rest' : List Char, quote a ++ rest = quote b ++ rest' → a = b ∧ rest = rest' := by
    intro a b rest rest' h
    have hread := congrArg (fun text => readString text.tail) h
    simp only [quote, List.cons_append, List.tail_cons, List.append_assoc,
      readString_flatMap_escapeChar, Option.some.injEq, Prod.mk.injEq] at hread
    exact hread
  have hitems : ∀ items items' : Dict String (Option Empty),
      items.flatMap (fun item => quote item.1.toList) = items'.flatMap (fun item => quote item.1.toList) →
        items = items' := by
    intro items
    induction items with
    | nil =>
      intro items' h
      cases items' with
      | nil => rfl
      | cons item items' => cases h
    | cons item items ih =>
      intro items' h
      cases items' with
      | nil => cases h
      | cons item' items' =>
        obtain ⟨key, none | value⟩ := item
        · obtain ⟨key', none | value'⟩ := item'
          · obtain ⟨hkey, hrest⟩ := hquote _ _ _ _ h
            have hsame : key = key' := String.toList_inj.mp hkey
            rw [hsame, ih items' hrest]
          · exact value'.elim
        · exact value.elim
  rintro (entry | items | stats) (entry' | items' | stats') h
  case table.table =>
    have htext := congrArg String.toList h
    simp only [spelled, String.toList_ofList, List.cons.injEq, true_and] at htext
    rw [hitems items items' htext]
  all_goals first
    | exact entry.elim
    | exact entry'.elim
    | rfl
    | exact absurd (congrArg (fun text => text.toList.head?) h) (by simp [spelled])

/-- A tool that says how many symbol shards there are, over a manifest with one. -/
def listing : Deployment Unit Empty Unit Unit where
  toolsVersion := "1"
  canonicalArgs _ _ := some "\x7b\x7d"
  handlers tool := if tool = "index" then
    some fun _ => .read (.keys "symbols") fun answer => .done (match answer with
      | .keys keys => .computed (toString keys.length)
      | _ => .refused "no listing")
    else none
  snapshot _ := ⟨fun _ => [("a.py", none)], ()⟩
  content _ := ⟨[], 1⟩
  digest := spelled

theorem listing_sound : Sound listing where
  canonical _ _ _ _ _ _ _ _ := rfl
  injective := spelled_injective
  present := by
    rintro (entry | items | stats) h
    · exact entry.elim
    · exact absurd (congrArg (fun text => text.toList.head?) h) (by simp [listing, spelled, absent])
    · exact absurd (congrArg (fun text => text.toList.head?) h) (by simp [listing, spelled, absent])

def indexQuestion : Question Unit := ⟨⟨"t", "r", "m"⟩, "index", ()⟩

def indexLooking : Service Unit := start.ask listing 0 indexQuestion

def indexComputing : Service Unit := indexLooking.look 0 indexQuestion ⟨"t", "m", "index", "\x7b\x7d", "1"⟩

def indexAnswered : Service Unit := indexComputing.compute listing 8 4 0 indexQuestion fun _ _ => .fault

theorem answers_of_run_listing :
    (4 : Nat) ≤ 8 ∧ Sound listing ∧ ((∀ w q data via, indexAnswered.request w = .answered q (.whole data via) →
      (direct listing q).data? = some data) ∧ indexAnswered.results.bytes ≤ (8 : Nat)) := by
  have hask : Step listing 8 4 start (.ask 0 indexQuestion) indexLooking := .ask indexQuestion rfl
  have hlook : Step listing 8 4 indexLooking (.look 0) indexComputing := .look rfl
  have hcompute : Step listing 8 4 indexComputing (.compute 0 fun _ _ => .fault) indexAnswered := .compute rfl nofun
  exact ⟨by decide, listing_sound, answers_of_run listing_sound (by decide) ((Run.one hask |>.snoc hlook).snoc hcompute)⟩

end Listing

end Service

end SwarmCloud.GraphService
