import SwarmCloud.Accounts.Documents

/-! # A decoded account reads back

Every account that `from_firestore` makes is written by `to_firestore` as a
document that decodes to it again.
-/

namespace SwarmCloud.Accounts

open Common Lib

section Texts

variable {py : Python}

theorem dropWhile_of_head {p : Char → Bool} {cs : List Char} (h : ∀ c, cs.head? = some c → p c = false) :
    cs.dropWhile p = cs := by
  cases cs with
  | nil => rfl
  | cons c cs => exact List.dropWhile_cons_of_neg (by simp [h c rfl])

/-- What is left after the spaces of both ends are gone has none. -/
theorem strip_ends (py : Python) (s : String) :
    ((py.strip s).toList.dropWhile py.isSpace).rdropWhile py.isSpace = (py.strip s).toList := by
  rw [Python.strip, String.toList_ofList]
  rw [dropWhile_of_head, List.rdropWhile_idempotent]
  intro c hc
  have hprefix := List.rdropWhile_prefix py.isSpace (l := s.toList.dropWhile py.isSpace)
  obtain ⟨rest, hrest⟩ := hprefix
  have hhead : (s.toList.dropWhile py.isSpace).head? = some c := by
    rw [← hrest, List.head?_append, hc]
    rfl
  have hnot := List.head?_dropWhile_not py.isSpace s.toList
  rwa [hhead] at hnot

theorem strip_of_ends {s : String} (h : (s.toList.dropWhile py.isSpace).rdropWhile py.isSpace = s.toList) :
    py.strip s = s := by
  rw [Python.strip, h, String.ofList_toList]

theorem strip_strip (s : String) : py.strip (py.strip s) = py.strip s := strip_of_ends (strip_ends py s)

theorem strip_lower_strip (s : String) : py.strip (py.lower (py.strip s)) = py.lower (py.strip s) :=
  strip_of_ends (py.lower_ends _ (strip_ends py s))

end Texts

/-! ## One field at a time -/

theorem optionalText_ofText (raw : Raw) : optionalText (.ofText (optionalText raw)) = optionalText raw := by
  cases raw with
  | text s =>
    rw [optionalText]
    split
    · rfl
    · rename_i hs
      exact if_neg hs
  | _ => rfl

theorem optionalInstant_ofInstant (i : Option Instant) : optionalInstant (.ofInstant i) = i := by
  cases i with
  | none => rfl
  | some i => rfl

theorem ofValue_value (state : AccountState) : AccountState.ofValue state.value = some state := by
  cases state with
  | available => decide
  | paused => decide
  | draining => decide
  | reauthRequired => decide

theorem value_ne (state : AccountState) : state.value ≠ "" := by
  cases state with
  | available => decide
  | paused => decide
  | draining => decide
  | reauthRequired => decide

theorem optionalState_written (py : Python) (state : Option AccountState) :
    optionalState py (.text (state.elim "" AccountState.value)) = state := by
  cases state with
  | none => rfl
  | some state =>
    rw [optionalState, if_pos (by simp [Raw.truthy, value_ne])]
    exact ofValue_value state

theorem orElse_orElse (raw : Raw) (s : String) : (raw.orElse (.text s)).orElse (.text s) = raw.orElse (.text s) := by
  by_cases hraw : raw.truthy
  · simp [Raw.orElse, hraw]
  · simp [Raw.orElse, hraw]

theorem textsOf_map_text (names : List String) : textsOf (names.map .text) = names := by
  induction names with
  | nil => rfl
  | cons name names ih =>
    rw [List.map_cons, textsOf, List.filterMap_cons]
    exact congrArg (name :: ·) ih

theorem allNamed_map_text {vocabulary names : List String} (h : ∀ name ∈ names, name ∈ vocabulary) :
    allNamed vocabulary (names.map .text) = true := by
  simp only [allNamed, List.all_map, List.all_eq_true]
  intro name hname
  simpa using h name hname

/-- The members of a vocabulary that are asked for, read again. -/
theorem filter_filter_mem (vocabulary : List String) (p : String → Bool) :
    vocabulary.filter (fun name => name ∈ vocabulary.filter p) = vocabulary.filter p := by
  apply List.filter_congr
  intro name hname
  simp [hname]

theorem modelClasses_readBack {raw : Raw} {names : List String} (h : modelClassesFromFirestore raw = .ok names) :
    modelClassesFromFirestore (.list (names.map .text)) = .ok names := by
  have hof : ∀ p : String → Bool,
      modelClassesFromFirestore (.list ((modelClassNames.filter p).map .text)) = .ok (modelClassNames.filter p) := by
    intro p
    rw [modelClassesFromFirestore, textsOf_map_text,
      if_pos (allNamed_map_text fun name hname => List.mem_of_mem_filter hname), if_pos, filter_filter_mem]
    exact (by decide : modelClassNames.Nodup).filter p
  cases raw with
  | null =>
    cases h
    rfl
  | list items =>
    rw [modelClassesFromFirestore] at h
    split at h
    · split at h
      · cases h
        exact hof _
      · cases h
    · cases h
  | _ => cases h

theorem pools_readBack {raw : Raw} {names : List String} (h : poolsFromFirestore raw = .ok names) :
    poolsFromFirestore (.list (names.map .text)) = .ok names := by
  cases raw with
  | null =>
    cases h
    decide
  | list items =>
    rw [poolsFromFirestore] at h
    split at h
    · split at h
      · cases h
      · rename_i hsome
        cases h
        rw [poolsFromFirestore, textsOf_map_text,
          if_pos (allNamed_map_text fun name hname => List.mem_of_mem_filter hname), filter_filter_mem,
          if_neg hsome]
    · cases h
  | _ => cases h

theorem maxAgents_readBack {raw : Raw} {n : Int} (h : maxAgentsFromFirestore raw = .ok n) :
    maxAgentsFromFirestore (.int n) = .ok n := by
  cases raw with
  | null =>
    cases h
    decide
  | int m =>
    rw [maxAgentsFromFirestore] at h
    split at h
    · rename_i hm
      cases h
      exact if_pos hm
    · cases h
  | _ => cases h

theorem displayName_readBack (py : Python) (raw : Raw) :
    displayNameFromFirestore py (.ofText (displayNameFromFirestore py raw)) = displayNameFromFirestore py raw := by
  cases raw with
  | text name =>
    rw [displayNameFromFirestore]
    split
    · rfl
    · rename_i hname
      rw [Raw.ofText, displayNameFromFirestore, strip_strip, if_neg hname]
  | _ => rfl

theorem people_readBack (py : Python) (raw : Raw) :
    peopleFromFirestore py (.list ((peopleFromFirestore py raw).map .text)) = peopleFromFirestore py raw := by
  have hread : ∀ people : List String, (∀ p ∈ people, py.strip p = p ∧ p ≠ "" ∧ py.lower p = p) →
      peopleFromFirestore py (.list (people.map .text)) = people := by
    intro people hpeople
    rw [peopleFromFirestore, textsOf_map_text, List.filter_eq_self.mpr]
    · refine (List.map_congr_left ?_).trans (List.map_id people)
      intro p hp
      rw [(hpeople p hp).1, (hpeople p hp).2.2, id]
    · intro p hp
      simpa [(hpeople p hp).1] using (hpeople p hp).2.1
  apply hread
  cases raw with
  | list items =>
    intro p hp
    obtain ⟨q, hq, rfl⟩ := List.mem_map.mp hp
    have hne : py.strip q ≠ "" := by simpa using (List.mem_filter.mp hq).2
    exact ⟨strip_lower_strip q, py.lower_ne _ hne, py.lower_lower _⟩
  | _ =>
    intro p hp
    cases hp

theorem identical_readBack (raw : Raw) :
    identicalFromFirestore ((identicalFromFirestore raw).elim .null identicalToFirestore) =
      identicalFromFirestore raw := by
  cases hread : identicalFromFirestore raw with
  | none => rfl
  | some r =>
    cases raw with
    | map fields =>
      rw [identicalFromFirestore] at hread
      split at hread
      · split at hread
        · rename_i hvalid
          obtain rfl := Option.some.inj hread
          simp [identicalToFirestore, identicalFromFirestore, Document.get, Document.getD, List.lookup_cons, hvalid]
        · cases hread
      · cases hread
    | _ => cases hread

/-! ## Windows, reports and holds -/

theorem window_readBack (py : Python) (w : WindowReading) :
    windowFromFirestore py (windowToFirestore w) = .ok (some w) := by
  cases w with
  | mk utilization resetsAt observedAt =>
    cases observedAt with
    | none =>
      simp [windowToFirestore, windowFromFirestore, whenInstant, Document.get, Document.getD, List.lookup_cons,
        Python.float, optionalInstant]
    | some observedAt =>
      simp [windowToFirestore, windowFromFirestore, whenInstant, Document.get, Document.getD, List.lookup_cons,
        Python.float, optionalInstant]

theorem windowsFromItems_nodup {py : Python} {items : List (String × Raw)} {before windows : Dict String WindowReading}
    (hbefore : (before.map Prod.fst).Nodup) (h : windowsFromItems py items before = .ok windows) :
    (windows.map Prod.fst).Nodup := by
  induction items generalizing before with
  | nil =>
    cases h
    exact hbefore
  | cons item items ih =>
    obtain ⟨name, raw⟩ := item
    rw [windowsFromItems] at h
    obtain ⟨window, -, h⟩ := bind_eq_ok h
    cases window with
    | none => exact ih hbefore h
    | some window => exact ih (Dict.nodup_set hbefore name window) h

theorem windowsFromItems_written (py : Python) (before windows : Dict String WindowReading)
    (h : ((before ++ windows).map Prod.fst).Nodup) :
    windowsFromItems py (windows.map fun item => (item.1, windowToFirestore item.2)) before =
      .ok (before ++ windows) := by
  induction windows generalizing before with
  | nil => rw [List.append_nil, List.map_nil, windowsFromItems]
  | cons item windows ih =>
    obtain ⟨name, window⟩ := item
    have hnew : name ∉ before.map Prod.fst := by
      intro hname
      rw [List.map_append, List.nodup_append] at h
      exact h.2.2 name hname name List.mem_cons_self rfl
    rw [List.map_cons, windowsFromItems, window_readBack]
    refine Eq.trans ?_ ((ih (before.set name window) ?_).trans ?_)
    · rfl
    · rwa [Dict.set_of_new hnew, List.append_assoc]
    · rw [Dict.set_of_new hnew, List.append_assoc]
      rfl

theorem windows_readBack (py : Python) {windows : Dict String WindowReading} (h : (windows.map Prod.fst).Nodup) :
    ∃ items, itemsOf (windowsToFirestore windows) = .ok items ∧ windowsFromItems py items [] = .ok windows := by
  cases windows with
  | nil => exact ⟨[], rfl, rfl⟩
  | cons item windows => exact ⟨_, rfl, windowsFromItems_written py [] (item :: windows) h⟩

theorem reportsFromItems_nodup {items : List (String × Raw)} {before : Dict String Instant}
    (hbefore : (before.map Prod.fst).Nodup) : ((reportsFromItems items before).map Prod.fst).Nodup := by
  induction items generalizing before with
  | nil => exact hbefore
  | cons item items ih =>
    obtain ⟨tenant, raw⟩ := item
    cases raw with
    | instant i => exact ih (Dict.nodup_set hbefore tenant i)
    | _ => exact ih hbefore

theorem reportsFromItems_written (before reports : Dict String Instant)
    (h : ((before ++ reports).map Prod.fst).Nodup) :
    reportsFromItems (reports.map fun report => (report.1, .instant report.2)) before = before ++ reports := by
  induction reports generalizing before with
  | nil => rw [List.append_nil, List.map_nil, reportsFromItems]
  | cons report reports ih =>
    obtain ⟨tenant, i⟩ := report
    have hnew : tenant ∉ before.map Prod.fst := by
      intro htenant
      rw [List.map_append, List.nodup_append] at h
      exact h.2.2 tenant htenant tenant List.mem_cons_self rfl
    rw [List.map_cons, reportsFromItems, ih (before.set tenant i), Dict.set_of_new hnew, List.append_assoc]
    · rfl
    · rwa [Dict.set_of_new hnew, List.append_assoc]

theorem reports_readBack {reports : Dict String Instant} (h : (reports.map Prod.fst).Nodup) :
    ∃ items, itemsOf (.map (reports.map fun report => (report.1, .instant report.2))) = .ok items ∧
      reportsFromItems items [] = reports := by
  cases reports with
  | nil => exact ⟨[], rfl, rfl⟩
  | cons report reports => exact ⟨_, rfl, reportsFromItems_written [] (report :: reports) h⟩

/-- A hold that is stored in full: its id is some text, and no optional text is empty. -/
structure Hold.Stored (h : Hold) : Prop where
  assignmentId : h.assignmentId ≠ ""
  taskId : h.taskId ≠ some ""
  attemptId : h.attemptId ≠ some ""
  move : h.move ≠ some ""
  swappedFrom : h.swappedFrom ≠ some ""
  swapReason : h.swapReason ≠ some ""
  pool : h.pool ≠ ""
  person : h.person ≠ some ""
  voiceSessionId : h.voiceSessionId ≠ some ""

theorem optionalText_ne (raw : Raw) : optionalText raw ≠ some "" := by
  cases raw with
  | text s =>
    rw [optionalText]
    split
    · simp
    · rename_i hs
      simpa using hs
  | _ => simp [optionalText]

theorem text_ne {py : Python} {raw : Raw} (h : raw.truthy) : py.text raw ≠ "" := by
  cases raw with
  | text s => simpa [Raw.truthy, Python.text] using h
  | _ => exact py.str_ne _

theorem holdFromFirestore_stored {py : Python} {raw : Raw} {h : Hold} (hread : holdFromFirestore py raw = some h) :
    h.Stored := by
  cases raw with
  | map item =>
    rw [holdFromFirestore] at hread
    split at hread
    · split at hread
      · rename_i hid
        obtain rfl := Option.some.inj hread
        constructor
        · exact text_ne hid
        · exact optionalText_ne _
        · exact optionalText_ne _
        · exact optionalText_ne _
        · exact optionalText_ne _
        · exact optionalText_ne _
        · cases hpool : optionalText (Document.get item "pool") with
          | none => exact (by decide : poolWorkspace ≠ "")
          | some pool =>
            intro hempty
            exact optionalText_ne _ (hpool.trans (congrArg some hempty))
        · exact optionalText_ne _
        · exact optionalText_ne _
      · cases hread
    · cases hread
  | _ => cases hread

theorem lookup_whenText (key k : String) {s : Option String} (h : s ≠ some "") :
    (whenText key s).lookup k = if k = key then s.map .text else none := by
  cases s with
  | none => simp [whenText]
  | some s =>
    rw [whenText, if_neg (by simpa using h), List.lookup_cons]
    by_cases hk : k = key
    · simp [hk]
    · simp [hk, beq_false_of_ne hk]

theorem lookup_whenInstant (key k : String) (i : Option Instant) :
    (whenInstant key i).lookup k = if k = key then i.map .instant else none := by
  cases i with
  | none => simp [whenInstant]
  | some i =>
    rw [whenInstant, List.lookup_cons]
    by_cases hk : k = key
    · simp [hk]
    · simp [hk, beq_false_of_ne hk]

theorem optionalText_map {s : Option String} (h : s ≠ some "") :
    optionalText ((s.map Raw.text).getD .null) = s := by
  cases s with
  | none => rfl
  | some s => exact if_neg (by simpa using h)

theorem optionalInstant_map (i : Option Instant) : optionalInstant ((i.map Raw.instant).getD .null) = i := by
  cases i with
  | none => rfl
  | some i => rfl

theorem lookup_pool (k : String) (h : Hold) :
    (if h.pool ≠ poolWorkspace then [("pool", Raw.text h.pool)] else []).lookup k =
      if k = "pool" ∧ h.pool ≠ poolWorkspace then some (.text h.pool) else none := by
  by_cases hk : k = "pool"
  · by_cases hpool : h.pool = poolWorkspace
    · simp [hpool]
    · simp [hk, hpool]
  · by_cases hpool : h.pool = poolWorkspace
    · simp [hpool]
    · simp [hk, hpool, List.lookup_cons, beq_false_of_ne hk]

theorem text_orElse (py : Python) (s : String) : py.text ((Raw.text s).orElse (.text "")) = s := by
  by_cases hs : s = ""
  · simp [hs, Raw.orElse, Raw.truthy, Python.text]
  · simp [hs, Raw.orElse, Raw.truthy, Python.text]

theorem hold_readBack {py : Python} {h : Hold} (hstored : h.Stored) :
    holdFromFirestore py (holdToFirestore h) = some h := by
  have hpool : (optionalText ((if h.pool = poolWorkspace then none else some (Raw.text h.pool)).getD .null)).getD
      poolWorkspace = h.pool := by
    by_cases hworkspace : h.pool = poolWorkspace
    · simp [hworkspace, optionalText]
    · simp [hworkspace, optionalText, hstored.pool]
  have hid : ∀ s, py.text (.text s) = s := fun _ => rfl
  simp only [holdToFirestore, holdFromFirestore, Document.get, Document.getD, List.lookup_append, List.lookup_cons,
    List.lookup_nil, lookup_whenText _ _ hstored.taskId, lookup_whenText _ _ hstored.attemptId,
    lookup_whenText _ _ hstored.move, lookup_whenText _ _ hstored.swappedFrom,
    lookup_whenText _ _ hstored.swapReason, lookup_whenText _ _ hstored.person,
    lookup_whenText _ _ hstored.voiceSessionId, lookup_whenInstant, lookup_pool]
  simp [Raw.truthy, hstored.assignmentId, hid, text_orElse, optionalText_map hstored.taskId,
    optionalText_map hstored.attemptId, optionalText_map hstored.move, optionalText_map hstored.swappedFrom,
    optionalText_map hstored.swapReason, optionalText_map hstored.person, optionalText_map hstored.voiceSessionId,
    optionalInstant_map, hpool]

theorem holds_readBack {py : Python} {holds : List Hold} (h : ∀ hold ∈ holds, hold.Stored) :
    holdsFromFirestore py (.list (holds.map holdToFirestore)) = holds := by
  induction holds with
  | nil => rfl
  | cons hold holds ih =>
    rw [List.map_cons, holdsFromFirestore, List.filterMap_cons, hold_readBack (h hold List.mem_cons_self)]
    exact congrArg (hold :: ·) (ih fun other hother => h other (List.mem_cons_of_mem hold hother))

/-! ## The whole document -/

/-- An account whose every field reads back as it was written. -/
structure Account.Storable (py : Python) (a : Account) : Prop where
  windows : (a.windows.map Prod.fst).Nodup
  holds : ∀ hold ∈ a.holds, hold.Stored
  unreadableBy : (a.unreadableBy.map Prod.fst).Nodup
  reason : a.reason.orElse (.text "") = a.reason
  modelClasses : modelClassesFromFirestore (.list (a.modelClasses.map .text)) = .ok a.modelClasses
  displayName : displayNameFromFirestore py (.ofText a.displayName) = a.displayName
  maxAgents : maxAgentsFromFirestore (.int a.maxAgents) = .ok a.maxAgents
  organisationId : optionalText (.ofText a.organisationId) = a.organisationId
  organisationName : optionalText (.ofText a.organisationName) = a.organisationName
  organisationPlan : optionalText (.ofText a.organisationPlan) = a.organisationPlan
  seatId : optionalText (.ofText a.seatId) = a.seatId
  duplicateOf : optionalText (.ofText a.duplicateOf) = a.duplicateOf
  possibleDuplicateOf : optionalText (.ofText a.possibleDuplicateOf) = a.possibleDuplicateOf
  identicalReadings :
    identicalFromFirestore (a.identicalReadings.elim .null identicalToFirestore) = a.identicalReadings
  limitedWindow : optionalText (.ofText a.limitedWindow) = a.limitedWindow
  pools : poolsFromFirestore (.list (a.pools.map .text)) = .ok a.pools
  voiceItPeople : peopleFromFirestore py (.list (a.voiceItPeople.map .text)) = a.voiceItPeople

theorem fromFirestore_storable {py : Python} {data : Document} {a : Account} (h : fromFirestore py data = .ok a) :
    a.Storable py := by
  rw [fromFirestore] at h
  obtain ⟨items, -, h⟩ := bind_eq_ok h
  obtain ⟨windows, hwindows, h⟩ := bind_eq_ok h
  obtain ⟨accountId, -, h⟩ := bind_eq_ok h
  obtain ⟨ownerTenant, -, h⟩ := bind_eq_ok h
  obtain ⟨label, -, h⟩ := bind_eq_ok h
  obtain ⟨state, -, h⟩ := bind_eq_ok h
  obtain ⟨lendTo, -, h⟩ := bind_eq_ok h
  obtain ⟨reports, -, h⟩ := bind_eq_ok h
  obtain ⟨assigned, -, h⟩ := bind_eq_ok h
  obtain ⟨modelClasses, hclasses, h⟩ := bind_eq_ok h
  obtain ⟨maxAgents, hagents, h⟩ := bind_eq_ok h
  obtain ⟨pools, hpools, h⟩ := bind_eq_ok h
  obtain rfl := Except.ok.inj h
  constructor
  · exact @windowsFromItems_nodup py items [] windows List.nodup_nil hwindows
  · intro hold hin
    dsimp only at hin
    cases hholds : data.get "holds" with
    | list stored =>
      rw [hholds, holdsFromFirestore, List.mem_filterMap] at hin
      obtain ⟨raw, -, hread⟩ := hin
      exact holdFromFirestore_stored hread
    | _ =>
      rw [hholds] at hin
      cases hin
  · exact @reportsFromItems_nodup reports [] List.nodup_nil
  · exact orElse_orElse _ _
  · exact modelClasses_readBack hclasses
  · exact displayName_readBack py _
  · exact maxAgents_readBack hagents
  · exact optionalText_ofText _
  · exact optionalText_ofText _
  · exact optionalText_ofText _
  · exact optionalText_ofText _
  · exact optionalText_ofText _
  · exact optionalText_ofText _
  · exact identical_readBack _
  · exact optionalText_ofText _
  · exact pools_readBack hpools
  · exact people_readBack py _

/-- What is written of a storable account decodes to it. -/
theorem fromFirestore_toFirestore {py : Python} {a : Account} (h : a.Storable py) :
    fromFirestore py (toFirestore a) = .ok a := by
  obtain ⟨reports, hitems, hreports⟩ := reports_readBack h.unreadableBy
  have hstate : stateFromFirestore (.text a.state.value) = .ok a.state := by
    rw [stateFromFirestore, ofValue_value]
  have hlend : lendToFromFirestore (.list a.lendTo) = .ok a.lendTo := by
    cases a.lendTo with
    | nil => rfl
    | cons tenant lendTo => rfl
  have hrefresh : (optionalText (.text a.lastRefreshReason)).getD "" = a.lastRefreshReason := by
    rw [optionalText]
    split
    · rename_i hempty
      exact hempty.symm
    · rfl
  obtain ⟨stored, hstored, hwindows⟩ := windows_readBack py h.windows
  have hassigned : py.int (.int a.assigned) = .ok a.assigned := rfl
  simp only [fromFirestore, toFirestore, Document.get, Document.getD, Document.required, List.lookup_cons]
  simp [hstored, hwindows, hstate, hlend, hitems, hreports, hassigned, h.modelClasses, h.maxAgents, h.pools,
    optionalInstant_ofInstant, holds_readBack h.holds, h.reason, optionalState_written, text_orElse, hrefresh,
    h.displayName, h.organisationId, h.organisationName, h.organisationPlan, h.seatId, h.duplicateOf,
    h.possibleDuplicateOf, h.identicalReadings, h.limitedWindow, h.voiceItPeople, bind, Except.bind]
  rfl

end SwarmCloud.Accounts
