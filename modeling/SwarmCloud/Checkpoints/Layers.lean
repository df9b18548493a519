import SwarmCloud.Checkpoints.Unpack
import SwarmCloud.Lib.Results

/-! # A layer makes the tree it was written from

Onto the tree before it: what the layer names deleted or replaces goes, and what
is left is part of the new tree. Extraction then only adds what the new tree has,
so every directory on the way is one and no link on the way leads elsewhere.
-/

namespace SwarmCloud.Checkpoints

open Lib PathMap

/-! ## Paths on which no link stands -/

section RealPath

variable {host : Host} {work : Work} {parts : List String}

/-- A path on which every `lstat` finds no link, or raises where that is allowed. -/
theorem resolveStrict_of_plain {P : Prop} {lstat : List String → Except String (Option String)}
    {expand : List String → List String → String → Except String (List String)} {path rest : List String}
    (hproper : ∀ part ∈ rest, part ≠ "" ∧ part ≠ "." ∧ part ≠ "..")
    (hplain : ∀ p, p <+: rest → p ≠ [] → lstat (path ++ p) = .ok none ∨ P ∧ ∃ error, lstat (path ++ p) = .error error) :
    resolveStrict lstat expand path rest = .ok (path ++ rest) ∨
      P ∧ ∃ error, resolveStrict lstat expand path rest = .error error := by
  induction rest generalizing path with
  | nil => exact .inl (by rw [resolveStrict, List.append_nil])
  | cons name rest ih =>
    obtain ⟨hempty, hdot, hup⟩ := hproper name List.mem_cons_self
    rw [resolveStrict, if_neg (by simp [hempty, hdot]), if_neg hup]
    rcases hplain [name] (by simp) (by simp) with hhere | ⟨hallowed, error, hhere⟩
    · rw [hhere]
      dsimp only
      have hrest : path ++ name :: rest = path ++ [name] ++ rest := by simp
      rw [hrest]
      refine ih (fun part hpart => hproper part (List.mem_cons_of_mem _ hpart)) fun p hp hne => ?_
      rw [List.append_assoc]
      exact hplain (name :: p) (List.cons_prefix_cons.mpr ⟨rfl, hp⟩) (by simp)
    · rw [hhere]
      exact .inr ⟨hallowed, error, rfl⟩

theorem lstat_of_plain (hne : parts ≠ []) (hlinks : ∀ linkname, work parts ≠ some (.link linkname))
    (hfiles : parts.dropLast ≠ [] → ∀ content, work parts.dropLast ≠ some (.file content)) :
    host.lstatError (host.root ++ parts) = none ∧ host.lstat work (host.root ++ parts) = .ok none ∨
      ∃ error, host.lstatError (host.root ++ parts) = some error ∧
        host.lstat work (host.root ++ parts) = .error error := by
  cases herror : host.lstatError (host.root ++ parts) with
  | some error => exact .inr ⟨error, rfl, by rw [Host.lstat, herror]⟩
  | none =>
    refine .inl ⟨rfl, ?_⟩
    have hfile : host.isFile work (host.root ++ parts).dropLast = false := by
      rw [List.dropLast_append_of_ne_nil hne, Host.isFile]
      by_cases habove : parts.dropLast = []
      · simp [habove]
      · rw [List.drop_left, Bool.and_eq_false_iff]
        refine .inr (Bool.eq_false_iff.mpr fun hany => ?_)
        obtain ⟨node, hnode, hkind⟩ := (Option.any_eq_true _ _).mp hany
        cases node with
        | dir => cases hkind
        | link linkname => cases hkind
        | file content => exact hfiles habove content hnode
    have hlink : host.readlink work (host.root ++ parts) = none := by
      rw [Host.readlink, if_pos ⟨List.prefix_append _ _, by simpa using hne⟩, List.drop_left]
      cases hnode : work parts with
      | none => rfl
      | some node =>
        cases node with
        | dir => rfl
        | file content => rfl
        | link linkname => exact absurd hnode (hlinks linkname)
    rw [Host.lstat, herror]
    dsimp only
    rw [hfile, hlink]
    rfl

/-- A path with nothing but directories above it, and no link at its end, is inside. -/
theorem staysInside_of_plain {strict : Prop} (id : String)
    (hproper : ∀ part ∈ parts, part ≠ "" ∧ part ≠ "." ∧ part ≠ "..")
    (hreach : strict → ∀ p, p <+: parts → p ≠ [] → host.lstatError (host.root ++ p) = none)
    (hlinks : ∀ p, p <+: parts → p ≠ [] → ∀ linkname, work p ≠ some (.link linkname))
    (hfiles : ∀ p, Above p parts → ∀ content, work p ≠ some (.file content)) :
    staysInside host id work parts = .ok true ∨ ¬ strict ∧ ∃ stop, staysInside host id work parts = .error stop := by
  have hplain : ∀ p, p <+: parts → p ≠ [] → host.lstat work (host.root ++ p) = .ok none ∨
      ¬ strict ∧ ∃ error, host.lstat work (host.root ++ p) = .error error := by
    intro p hp hne
    have habove : p.dropLast ≠ [] → ∀ content, work p.dropLast ≠ some (.file content) := fun hpne =>
      hfiles _ ⟨hpne, (List.dropLast_prefix p).trans hp, fun heq => by
        have hlength := congrArg List.length heq
        have hle := hp.length_le
        have hpos := List.length_pos_iff.mpr hne
        rw [List.length_dropLast] at hlength
        omega⟩
    rcases lstat_of_plain hne (hlinks p hp hne) habove with ⟨-, hlstat⟩ | ⟨error, herror, hlstat⟩
    · exact .inl hlstat
    · refine .inr ⟨fun hstrict => ?_, error, hlstat⟩
      rw [hreach hstrict p hp hne] at herror
      cases herror
  have hjoin : ∀ n seen, joinRealPathStrict (host.lstat work) n seen host.root parts = .ok (host.root ++ parts) ∨
      ¬ strict ∧ ∃ error, joinRealPathStrict (host.lstat work) n seen host.root parts = .error error := by
    intro n seen
    cases n with
    | zero => exact resolveStrict_of_plain hproper hplain
    | succ n => exact resolveStrict_of_plain hproper hplain
  rw [staysInside, Host.realpathStrict]
  rcases hjoin host.nesting [] with hplace | ⟨hloose, error, herror⟩
  · rw [hplace]
    exact .inl (by simp)
  · rw [herror]
    exact .inr ⟨hloose, _, rfl⟩

end RealPath

/-! ## Opening and removing -/

section Removal

variable {work : Work} {parts : List String}

theorem openParents_spec {path rest : List String}
    (h : ∀ p, p <+: rest → p ≠ [] → work (path ++ p) = none ∨ work (path ++ p) = some .dir) :
    openParents work path rest = .opened ∨
      openParents work path rest = .missing ∧ ∃ p, p <+: rest ∧ p ≠ [] ∧ work (path ++ p) = none := by
  induction rest generalizing path with
  | nil => exact .inl rfl
  | cons part rest ih =>
    rw [openParents]
    rcases h [part] (by simp) (by simp) with hnone | hdir
    · rw [hnone]
      exact .inr ⟨rfl, [part], by simp, by simp, hnone⟩
    · rw [hdir]
      dsimp only
      have hrest : ∀ p, p <+: rest → p ≠ [] →
          work (path ++ [part] ++ p) = none ∨ work (path ++ [part] ++ p) = some .dir := by
        intro p hp hne
        rw [List.append_assoc]
        exact h (part :: p) (List.cons_prefix_cons.mpr ⟨rfl, hp⟩) (by simp)
      rcases ih hrest with hopened | ⟨hmissing, p, hp, hne, hnone⟩
      · exact .inl hopened
      · refine .inr ⟨hmissing, part :: p, List.cons_prefix_cons.mpr ⟨rfl, hp⟩, by simp, ?_⟩
        rwa [List.append_assoc] at hnone

/-- No link and no file lies on the way to the path. -/
def Passable (work : Work) (parts : List String) : Prop :=
  ∀ above, Above above parts → work above = none ∨ work above = some .dir

theorem openParents_of_passable (h : Passable work parts) :
    openParents work [] parts.dropLast = .opened ∨
      openParents work [] parts.dropLast = .missing ∧ ∃ above, Above above parts ∧ work above = none := by
  have hway : ∀ p, p <+: parts.dropLast → p ≠ [] → work ([] ++ p) = none ∨ work ([] ++ p) = some .dir :=
    fun p hp hne => h p (above_of_prefix_dropLast hne hp)
  rcases openParents_spec hway with hopened | ⟨hmissing, p, hp, hne, hnone⟩
  · exact .inl hopened
  · exact .inr ⟨hmissing, p, above_of_prefix_dropLast hne hp, hnone⟩

theorem removeWithin_eq (id : String) (hclosed : Closed Node.dir work) {path : TreePath}
    (hway : Passable work path.parts) (keepDirectory : Bool) :
    removeWithin id keepDirectory work path.text =
      .ok (if keepDirectory = true ∧ work path.parts = some .dir then work else work.removeBelow path.parts) := by
  have hne := path.parts_ne_nil
  have habsent : work path.parts = none → work.removeBelow path.parts = work := hclosed.removeBelow_of_none hne
  rw [removeWithin, path.archiveParts_eq]
  dsimp only
  rcases openParents_of_passable hway with hopened | ⟨hmissing, above, habove, hnone⟩
  · rw [hopened]
    dsimp only
    cases hnode : work path.parts with
    | none => simp [habsent hnode]
    | some node =>
      cases node with
      | dir => cases keepDirectory <;> simp
      | link linkname => simp [hclosed.remove_eq hne (by rw [hnode]; simp)]
      | file content => simp [hclosed.remove_eq hne (by rw [hnode]; simp)]
  · have hgone : work path.parts = none := hclosed.none_below (by rw [hnone]; simp) habove
    rw [hmissing]
    simp [habsent hgone]

end Removal

/-! ## Links that stay inside -/

/-- The target as far as the members do not make it. -/
def withoutMembers (target : Work) (members : List Member) : Work := fun parts =>
  if members.any fun member => segments member.name = parts then none else target parts

theorem withoutMembers_eq_some {target : Work} {members : List Member} {parts : List String} {node : Node} :
    withoutMembers target members parts = some node ↔
      parts ∉ members.map (fun member => segments member.name) ∧ target parts = some node := by
  rw [withoutMembers]
  split
  · rename_i hany
    refine ⟨nofun, fun h => absurd ?_ h.1⟩
    simpa using hany
  · rename_i hnone
    refine (and_iff_right fun hmem => hnone ?_).symm
    simpa using hmem

/-- The file system takes the paths of the target, and no link of an archive that makes it leaves the root: by its text,
over what stands when it is made, and over the target. -/
structure LinksInside (host : Host) (members : List Member) (target : Work) : Prop where
  reachable : ∀ parts node, target parts = some node → host.lstatError (host.root ++ parts) = none
  byText : ∀ member ∈ members, ∀ linkname, member.kind = .link linkname →
    linkLeaves (segments member.name) linkname = false
  meanwhile : ∀ member later, member :: later <:+ members → ∀ linkname, member.kind = .link linkname →
    ∃ place, host.root <+: place ∧ host.realpathStrict (withoutMembers target (member :: later))
      ((segments member.name).dropLast ++ segments linkname) = .ok place
  atLast : ∀ member ∈ members, ∀ linkname, member.kind = .link linkname →
    host.escapes target (segments member.name) = false

theorem LinksInside.tail {host : Host} {member : Member} {members : List Member} {target : Work}
    (h : LinksInside host (member :: members) target) : LinksInside host members target where
  reachable := h.reachable
  byText other hother := h.byText other (List.mem_cons_of_mem member hother)
  meanwhile other later hlater := h.meanwhile other later (hlater.trans (List.suffix_cons member members))
  atLast other hother := h.atLast other (List.mem_cons_of_mem member hother)

theorem bind_linkname? {node : Option Node} {linkname : String} :
    node.bind Node.linkname? = some linkname ↔ node = some (.link linkname) := by
  cases node with
  | none => simp
  | some node => cases node <;> simp [Node.linkname?]

/-- Only the links and the files on the disk decide where a path leads. -/
theorem realpathStrict_congr (host : Host) {work work' : Work}
    (h : ∀ parts node, node ≠ .dir → (work parts = some node ↔ work' parts = some node)) (rest : List String) :
    host.realpathStrict work rest = host.realpathStrict work' rest := by
  have hlink : ∀ parts, (work parts).bind Node.linkname? = (work' parts).bind Node.linkname? := by
    intro parts
    refine Option.ext fun linkname => ?_
    rw [bind_linkname?, bind_linkname?, h parts _ (by simp)]
  have hfile : ∀ path, host.isFile work path = host.isFile work' path := by
    intro path
    rw [Host.isFile, Host.isFile, Bool.eq_iff_iff]
    simp only [Bool.and_eq_true, Option.any_eq_true]
    refine and_congr_right fun _ => exists_congr fun node => and_congr_left fun hkind => h _ node ?_
    rintro rfl
    cases hkind
  have hlstat : host.lstat work = host.lstat work' := by
    funext path
    unfold Host.lstat Host.readlink
    rw [hfile, hlink]
  rw [Host.realpathStrict, Host.realpathStrict, hlstat]

/-! Restores that skip links, or stop at one, are followed too. Where the links are `strict`, none does. -/

/-- Part of the target, or a link where the target has another. -/
def Within (strict : Prop) (work target : Work) : Prop :=
  ∀ parts node, work parts = some node → target parts = some node ∨
    ¬ strict ∧ ∃ linkname linkname', node = .link linkname ∧ target parts = some (.link linkname')

/-- The target, or another link or nothing where the target has a link. -/
def UpToLinks (strict : Prop) (work target : Work) : Prop :=
  ∀ parts, work parts = target parts ∨
    ¬ strict ∧ ∃ linkname, target parts = some (.link linkname) ∧
      (work parts = none ∨ ∃ linkname', work parts = some (.link linkname'))

/-- The target up to links. Only for links that are not strict may there be an error instead. -/
def Gives (strict : Prop) (result : Except Stop Work) (target : Work) : Prop :=
  match result with
  | .ok made => UpToLinks strict made target
  | .error _ => ¬ strict

section UpTo

variable {strict : Prop} {work target : Work} {parts : List String}

theorem within_of_partOf (h : PartOf work target) : Within strict work target :=
  fun parts node hnode => .inl (h parts node hnode)

theorem Within.partOf (h : Within strict work target) (hstrict : strict) : PartOf work target := by
  intro parts node hnode
  rcases h parts node hnode with hsame | ⟨hloose, -⟩
  · exact hsame
  · exact absurd hstrict hloose

/-- Where the target has no link, there is what it has, or nothing. -/
theorem Within.eq_or_none (h : Within strict work target) (parts : List String)
    (hlink : ∀ linkname, target parts ≠ some (.link linkname)) :
    work parts = target parts ∨ work parts = none := by
  cases hnode : work parts with
  | none => exact .inr rfl
  | some node =>
    rcases h parts node hnode with hsame | ⟨-, -, linkname', -, hother⟩
    · exact .inl hsame.symm
    · exact absurd hother (hlink linkname')

theorem Within.none (h : Within strict work target) (hnone : target parts = none) : work parts = none := by
  rcases h.eq_or_none parts (by simp [hnone]) with hsame | hnone'
  · rw [hsame, hnone]
  · exact hnone'

theorem UpToLinks.refl (strict : Prop) (work : Work) : UpToLinks strict work work := fun _ => .inl rfl

theorem UpToLinks.eq (h : UpToLinks strict work target) (hstrict : strict) : work = target := by
  funext parts
  rcases h parts with hsame | ⟨hloose, -⟩
  · exact hsame
  · exact absurd hstrict hloose

theorem UpToLinks.eq_at (h : UpToLinks strict work target) (hlink : ∀ linkname, target parts ≠ some (.link linkname)) :
    work parts = target parts := by
  rcases h parts with hsame | ⟨-, linkname, hother, -⟩
  · exact hsame
  · exact absurd hother (hlink linkname)

theorem UpToLinks.within (h : UpToLinks strict work target) : Within strict work target := by
  intro parts node hnode
  rcases h parts with hsame | ⟨hloose, linkname, hlink, hnone | ⟨linkname', hother⟩⟩
  · exact .inl (hsame.symm.trans hnode)
  · rw [hnode] at hnone
    cases hnone
  · rw [hnode, Option.some.injEq] at hother
    exact .inr ⟨hloose, linkname', linkname, hother, hlink⟩

theorem UpToLinks.closed (h : UpToLinks strict work target) (hclosed : Closed Node.dir target) :
    Closed Node.dir work := by
  intro parts node hnode above habove
  have hdir : target above = some .dir := by
    rcases h.within parts node hnode with hsame | ⟨-, -, linkname, -, hlink⟩
    · exact hclosed parts node hsame above habove
    · exact hclosed parts _ hlink above habove
  rw [h.eq_at (by simp [hdir]), hdir]

/-- Everything but links is there, and the links too if they are strict. -/
theorem Within.upToLinks (h : Within strict work target)
    (hall : ∀ parts node, target parts = some node → (strict ∨ ∀ linkname, node ≠ .link linkname) →
      work parts = some node) : UpToLinks strict work target := by
  intro parts
  cases hnode : target parts with
  | none => exact .inl (h.none hnode)
  | some node =>
    by_cases hstrict : strict ∨ ∀ linkname, node ≠ .link linkname
    · exact .inl (hall parts node hnode hstrict)
    · obtain ⟨hloose, hlink⟩ := not_or.mp hstrict
      push Not at hlink
      obtain ⟨linkname, rfl⟩ := hlink
      refine .inr ⟨hloose, linkname, rfl, ?_⟩
      cases hwork : work parts with
      | none => exact .inl rfl
      | some node' =>
        rcases h parts node' hwork with hsame | ⟨-, linkname', -, hlink', -⟩
        · rw [hnode, Option.some.injEq] at hsame
          exact .inr ⟨linkname, congrArg some hsame.symm⟩
        · exact .inr ⟨linkname', congrArg some hlink'⟩

/-- On the way to an entry of the target there is nothing but directories. -/
theorem passable_of_within (hclosed : Closed Node.dir target) (hwithin : Within strict work target) {node : Node}
    (hnode : target parts = some node) : Passable work parts := by
  intro above habove
  have hdir := hclosed parts node hnode above habove
  rcases hwithin.eq_or_none above (by simp [hdir]) with hsame | hnone
  · exact .inr (hsame.trans hdir)
  · exact .inl hnone

end UpTo

/-! ## The members are accepted -/

def withParts (members : List Member) : List (List String × Member) :=
  members.map fun member => (segments member.name, member)

section Accepted

variable {host : Host} {target : Work} {files : List TreePath} {members : List Member}

theorem TreePath.getLast_ne_slash (path : TreePath) : path.text.toList.getLast? ≠ some '/' := by
  intro hlast
  obtain ⟨init, hinit⟩ := List.getLast?_eq_some_iff.mp hlast
  have htext : path.text = String.ofList init ++ "/" ++ "" := by
    rw [← String.toList_inj]
    simp [hinit]
  have hempty : "" ∈ segments path.text := by
    rw [htext, segments_slash]
    exact List.mem_append_right _ (by decide)
  exact (path.proper _ hempty).1 rfl

theorem Archives.memberParts_eq (h : Archives target files members) : memberParts members = .ok (withParts members) := by
  induction h with
  | nil => rfl
  | @cons _ path kind _ rest _ _ _ ih =>
    rw [memberParts, path.archiveParts_eq]
    dsimp only
    rw [ih]
    rfl

/-- A member is an entry of the tree, a directory exactly if the tree has one there. -/
theorem Archives.mem (h : Archives target files members) {member : Member} (hmem : member ∈ members) :
    ∃ path : TreePath, ∃ node, member.name = path.text ∧ target path.parts = some node ∧
      (member.isDir = true ↔ node = .dir) ∧
        ∀ linkname, member.kind = .link linkname → node = .link (normLinkname linkname) := by
  induction h with
  | nil => cases hmem
  | @cons _ path kind node _ here makes _ ih =>
    rcases List.mem_cons.mp hmem with rfl | hmem
    · refine ⟨path, node, rfl, here, ?_⟩
      cases makes <;> simp [Member.isDir]
    · exact ih hmem

theorem throughLink_eq_none (hclosed : Closed Node.dir target) {symlinks : List (List String)} {parts : List String}
    {node : Node} (hnode : target parts = some node)
    (hlinks : ∀ link ∈ symlinks, ∃ linkname, target link = some (.link linkname)) :
    throughLink symlinks parts = none := by
  rw [throughLink, List.find?_eq_none]
  intro above habove hmem
  obtain ⟨depth, hdepth, rfl⟩ := List.mem_map.mp habove
  rw [List.mem_range'_1] at hdepth
  have hproper : Above (parts.take depth) parts := by
    refine ⟨?_, List.take_prefix _ _, ?_⟩
    · rw [← List.length_pos_iff, List.length_take]
      omega
    · intro heq
      have hlength := congrArg List.length heq
      rw [List.length_take] at hlength
      omega
  obtain ⟨linkname, hlink⟩ := hlinks _ (of_decide_eq_true hmem)
  rw [hclosed parts node hnode _ hproper] at hlink
  cases hlink

/-- The names are different from each other and from those seen before. -/
structure Fresh (seen : List (List String)) (members : List Member) : Prop where
  nodup : (members.map Member.name).Nodup
  unseen : ∀ member ∈ members, segments member.name ∉ seen

theorem Fresh.cons {seen : List (List String)} {path : TreePath} {kind : MemberKind} {rest : List Member}
    (h : Fresh seen (⟨path.text, kind⟩ :: rest)) : path.parts ∉ seen ∧ Fresh (path.parts :: seen) rest := by
  obtain ⟨hnodup, hunseen⟩ := h
  rw [List.map_cons, List.nodup_cons] at hnodup
  refine ⟨hunseen _ List.mem_cons_self, hnodup.2, ?_⟩
  intro member hmember hmem
  rcases List.mem_cons.mp hmem with heq | hmem
  · have hname : member.name = path.text := segments_inj heq
    exact hnodup.1 (List.mem_map.mpr ⟨member, hmember, hname⟩)
  · exact hunseen member (List.mem_cons_of_mem _ hmember) hmem

/-- A link that leaves the root by its text. -/
def leavesByText (member : Member) : Bool :=
  match member.kind with
  | .link linkname => linkLeaves (segments member.name) linkname
  | _ => false

/-- What `_safe_members` lets through. -/
def acceptedOf (members : List Member) : List Member := members.filter fun member => !leavesByText member

theorem Archives.acceptMembers_eq (h : Archives target files members) (hclosed : Closed Node.dir target)
    {symlinks seen known : List (List String)}
    (hlinks : ∀ link ∈ symlinks, ∃ linkname, target link = some (.link linkname)) (hfresh : Fresh seen members)
    (hknown : ∀ file ∈ files, file.parts ∈ known) :
    acceptMembers symlinks seen known (withParts members) = .ok (withParts (acceptedOf members)) := by
  induction h generalizing seen known with
  | nil => rfl
  | @cons _ path kind node rest here makes _ ih =>
    obtain ⟨hnew, hrest⟩ := hfresh.cons
    change acceptMembers symlinks seen known ((path.parts, _) :: withParts _) = _
    rw [acceptMembers, if_neg hnew, throughLink_eq_none hclosed here hlinks]
    cases makes with
    | dir =>
      dsimp only
      rw [ih hrest hknown]
      rfl
    | link linkname =>
      dsimp only
      rw [acceptedOf, List.filter_cons]
      split
      · rename_i hleaves
        rw [if_neg (by simpa [leavesByText, TreePath.parts] using hleaves)]
        exact ih hrest hknown
      · rename_i hstays
        rw [if_pos (by simpa [leavesByText, TreePath.parts] using hstays), ih hrest hknown]
        rfl
    | file content =>
      dsimp only
      rw [ih hrest ?_]
      · rfl
      · intro file hfile
        rcases List.mem_cons.mp hfile with rfl | hfile
        · exact List.mem_cons_self
        · exact List.mem_cons_of_mem _ (hknown file hfile)
    | @hardLink first content _ hfirst =>
      dsimp only
      rw [first.archiveParts_eq, if_neg (by simp [first.getLast_ne_slash, hknown first hfirst]), ih hrest hknown]
      rfl

theorem Archives.safeMembers_eq (h : Archives target [] members) (hclosed : Closed Node.dir target)
    (hnodup : (members.map Member.name).Nodup) : safeMembers members = .ok (withParts (acceptedOf members)) := by
  have hlinks : ∀ link ∈ ((withParts members).filter fun entry => isLink entry.2).map Prod.fst,
      ∃ linkname, target link = some (.link linkname) := by
    intro link hlink
    obtain ⟨⟨parts, member⟩, hentry, rfl⟩ := List.mem_map.mp hlink
    obtain ⟨hentry, hkind⟩ := List.mem_filter.mp hentry
    obtain ⟨member', hmember, heq⟩ := List.mem_map.mp hentry
    obtain ⟨rfl, rfl⟩ := Prod.mk.inj heq
    obtain ⟨path, node, hname, hnode, -, hlinkname⟩ := h.mem hmember
    cases hcase : member'.kind with
    | link linkname =>
      refine ⟨normLinkname linkname, ?_⟩
      rw [← hlinkname linkname hcase, ← hnode, hname]
      rfl
    | dir => simp [isLink, hcase] at hkind
    | hardLink linkname => simp [isLink, hcase] at hkind
    | file content => simp [isLink, hcase] at hkind
  rw [safeMembers, h.memberParts_eq]
  exact h.acceptMembers_eq hclosed hlinks ⟨hnodup, by simp⟩ (by simp)

theorem Archives.accepted (h : Archives target files members) : Archives target files (acceptedOf members) := by
  induction h with
  | nil => exact .nil
  | @cons _ path kind node rest here makes _ ih =>
    rw [acceptedOf, List.filter_cons]
    split
    · exact .cons here makes ih
    · rename_i hleaves
      cases makes with
      | link linkname => exact ih
      | dir => exact absurd rfl hleaves
      | file content => exact absurd rfl hleaves
      | hardLink there known => exact absurd rfl hleaves

theorem mem_acceptedOf {member : Member} (hmem : member ∈ members) (h : leavesByText member = false) :
    member ∈ acceptedOf members :=
  List.mem_filter.mpr ⟨hmem, by simp [h]⟩

theorem nodup_acceptedOf (h : (members.map Member.name).Nodup) : ((acceptedOf members).map Member.name).Nodup :=
  h.sublist ((List.filter_sublist).map _)

theorem LinksInside.stays (h : LinksInside host members target) {member : Member} (hmem : member ∈ members) :
    leavesByText member = false := by
  unfold leavesByText
  split
  · rename_i linkname hkind
    exact h.byText member hmem linkname hkind
  · rfl

/-- Where no link leaves the root, all members are let through. -/
theorem LinksInside.acceptedOf_eq (h : LinksInside host members target) : acceptedOf members = members := by
  rw [acceptedOf, List.filter_eq_self]
  intro member hmem
  rw [h.stays hmem]
  rfl

end Accepted

/-! ## What goes -/

section Clearing

variable {target : Work} {files : List TreePath} {members : List Member} {work : Work}

theorem Passable.mono {work' : Work} {parts : List String} (h : Passable work parts) (hpart : PartOf work' work) :
    Passable work' parts := by
  intro above habove
  cases hnode : work' above with
  | none => exact .inl rfl
  | some node =>
    rcases h above habove with hnone | hdir
    · rw [hpart above node hnode] at hnone
      cases hnone
    · rw [hpart above node hnode] at hdir
      exact .inr hdir

theorem removeDeleted_eq (id : String) (hclosed : Closed Node.dir work) {deleted : List TreePath}
    (hway : ∀ path ∈ deleted, Passable work path.parts) :
    (deleted.map TreePath.text).foldlM (removeWithin id false) work =
      .ok ((deleted.map TreePath.parts).foldl removeBelow work) := by
  have hpass := foldlM_eq_ok (l := deleted.map TreePath.text) (f := removeWithin id false)
    (g := fun work rel => work.removeBelow (segments rel))
    (I := fun work' => Closed Node.dir work' ∧ PartOf work' work) ?_ ⟨hclosed, PartOf.refl work⟩
  · rw [hpass.1, List.foldl_map, List.foldl_map]
    rfl
  · rintro work' ⟨hclosed', hpart⟩ rel hrel
    obtain ⟨path, hpath, rfl⟩ := List.mem_map.mp hrel
    rw [removeWithin_eq id hclosed' ((hway path hpath).mono hpart), if_neg (by simp)]
    exact ⟨rfl, hclosed'.removeBelow _, (partOf_removeBelow _ _).trans hpart⟩

/-- The places that the members which are no directories take. -/
def replaced (members : List Member) : List (List String) :=
  (members.filter fun member => !member.isDir).map fun member => segments member.name

theorem clearPlaces_eq (id : String) (harchive : Archives target files members) (hclosed : Closed Node.dir work)
    (hway : ∀ member ∈ members, Passable work (segments member.name))
    (hdirs : ∀ member ∈ members, member.isDir = true →
      work (segments member.name) = none ∨ work (segments member.name) = some .dir) :
    (withParts members).foldlM (fun work entry => removeWithin id entry.2.isDir work entry.2.name) work =
      .ok ((replaced members).foldl removeBelow work) := by
  have hpass := foldlM_eq_ok (l := withParts members)
    (f := fun work entry => removeWithin id entry.2.isDir work entry.2.name)
    (g := fun work entry => if !entry.2.isDir then work.removeBelow (segments entry.2.name) else work)
    (I := fun work' => Closed Node.dir work' ∧ PartOf work' work) ?_ ⟨hclosed, PartOf.refl work⟩
  · rw [hpass.1, withParts, List.foldl_map, replaced, List.foldl_map, List.foldl_filter]
  · rintro work' ⟨hclosed', hpart⟩ entry hentry
    obtain ⟨member, hmember, rfl⟩ := List.mem_map.mp hentry
    obtain ⟨path, node, hname, -, -, -⟩ := harchive.mem hmember
    have hway' := (hway member hmember).mono hpart
    rw [hname] at hway'
    dsimp only
    rw [hname, removeWithin_eq id hclosed' hway']
    cases hdir : member.isDir with
    | false =>
      exact ⟨rfl, hclosed'.removeBelow _, (partOf_removeBelow _ _).trans hpart⟩
    | true =>
      have hplace : work' path.parts = none ∨ work' path.parts = some .dir := by
        have hbefore := hdirs member hmember hdir
        rw [hname] at hbefore
        cases hnode : work' path.parts with
        | none => exact .inl rfl
        | some node =>
          rw [show work (segments path.text) = some node from hpart _ _ hnode] at hbefore
          simpa using hbefore
      rcases hplace with hnone | hdir'
      · rw [if_neg (by simp [hnone]), hclosed'.removeBelow_of_none path.parts_ne_nil hnone]
        exact ⟨rfl, hclosed', hpart⟩
      · rw [if_pos ⟨rfl, hdir'⟩]
        exact ⟨rfl, hclosed', hpart⟩

end Clearing

/-! ## What is made -/

section Making

variable {host : Host} {strict : Prop} {target : Work} {files : List TreePath} {members : List Member} {work : Work}

theorem TreePath.isAbsolute_eq_false (path : TreePath) : isAbsolute path.text = false := by
  have hparts := path.archiveParts_eq
  unfold archiveParts at hparts
  split at hparts
  · cases hparts
  · rename_i hslash
    exact decide_eq_false hslash

/-- The path of an entry is inside as long as no link stands in its place. -/
theorem staysInside_entry (id : String) (hclosed : Closed Node.dir target) (hwithin : Within strict work target)
    (hreach : strict → ∀ parts node, target parts = some node → host.lstatError (host.root ++ parts) = none)
    {path : TreePath} {node : Node} (hnode : target path.parts = some node)
    (hplace : ∀ linkname, work path.parts ≠ some (.link linkname)) :
    staysInside host id work path.parts = .ok true ∨
      ¬ strict ∧ ∃ stop, staysInside host id work path.parts = .error stop := by
  have hway := passable_of_within hclosed hwithin hnode
  refine staysInside_of_plain id path.proper ?_ ?_ ?_
  · intro hstrict p hp hne
    rcases eq_or_above hne hp with rfl | habove
    · exact hreach hstrict _ _ hnode
    · exact hreach hstrict _ _ (hclosed _ _ hnode _ habove)
  · intro p hp hne linkname hlink
    rcases eq_or_above hne hp with rfl | habove
    · exact hplace linkname hlink
    · rcases hway p habove with hnone | hdir
      · rw [hnone] at hlink
        cases hlink
      · rw [hdir] at hlink
        cases hlink
  · intro p habove content hfile
    rcases hway p habove with hnone | hdir
    · rw [hnone] at hfile
      cases hfile
    · rw [hdir] at hfile
      cases hfile

/-- A member as the data filter has it made. -/
def filtered : MemberKind → MemberKind
  | .dir => .dir
  | .link linkname => .link (normLinkname linkname)
  | .hardLink linkname => .hardLink (normLinkname linkname)
  | .file content => .file content

/-- The data filter lets the member through. A link that is not strict it may also skip, or raise for. -/
theorem restoreFilter_eq (id : String) (hclosed : Closed Node.dir target) (hwithin : Within strict work target)
    (hreach : strict → ∀ parts node, target parts = some node → host.lstatError (host.root ++ parts) = none)
    {path : TreePath} {kind : MemberKind} {node : Node} (hnode : target path.parts = some node)
    (hmakes : Makes target files kind node)
    (hlink : strict → ∀ linkname, kind = .link linkname → isAbsolute linkname = false ∧
      ∃ place, host.root <+: place ∧ host.realpathStrict work (path.parts.dropLast ++ segments linkname) = .ok place)
    (hfiles : ∀ file ∈ files, work file.parts = target file.parts) (hfree : node ≠ .dir → work path.parts = none) :
    restoreFilter host id work path.parts kind = .ok (some (filtered kind)) ∨
      ¬ strict ∧ ((∃ stop, restoreFilter host id work path.parts kind = .error stop) ∨
        restoreFilter host id work path.parts kind = .ok none ∧ ∃ linkname, node = .link linkname) := by
  have hplace : ∀ linkname, work path.parts ≠ some (.link linkname) := by
    intro linkname hlink
    by_cases hdir : node = .dir
    · subst hdir
      rcases hwithin.eq_or_none path.parts (by simp [hnode]) with hsame | hnone
      · rw [hlink, hnode] at hsame
        cases hsame
      · rw [hlink] at hnone
        cases hnone
    · rw [hfree hdir] at hlink
      cases hlink
  rcases staysInside_entry id hclosed hwithin hreach hnode hplace with hhere | ⟨hloose, stop, hhere⟩
  · rw [restoreFilter, hhere]
    dsimp only
    cases hmakes with
    | dir => exact .inl rfl
    | file content => exact .inl rfl
    | link linkname =>
      rw [filterLink]
      by_cases hstrict : strict
      · obtain ⟨hrelative, place, hinside, hreal⟩ := hlink hstrict linkname rfl
        have hstays : staysInside host id work (path.parts.dropLast ++ segments linkname) = .ok true := by
          rw [staysInside, hreal]
          exact congrArg Except.ok (List.isPrefixOf_iff_prefix.mpr hinside)
        rw [hrelative, hstays]
        exact .inl rfl
      · split
        · exact .inr ⟨hstrict, .inr ⟨rfl, _, rfl⟩⟩
        · cases staysInside host id work (path.parts.dropLast ++ segments linkname) with
          | error stop => exact .inr ⟨hstrict, .inl ⟨stop, rfl⟩⟩
          | ok stays =>
            cases stays with
            | false => exact .inr ⟨hstrict, .inr ⟨rfl, _, rfl⟩⟩
            | true => exact .inl rfl
    | @hardLink first content hthere hknown =>
      have hfile : work first.parts = some (.file content) := (hfiles first hknown).trans hthere
      rw [filterLink, first.isAbsolute_eq_false, if_neg Bool.false_ne_true]
      rcases staysInside_entry id hclosed hwithin hreach hthere (by simp [hfile]) with hinner | ⟨hloose, stop, hinner⟩
      · rw [show staysInside host id work (segments first.text) = .ok true from hinner]
        exact .inl rfl
      · rw [show staysInside host id work (segments first.text) = .error stop from hinner]
        exact .inr ⟨hloose, .inl ⟨stop, rfl⟩⟩
  · refine .inr ⟨hloose, .inl ⟨stop, ?_⟩⟩
    rw [restoreFilter, hhere]

/-- A member makes its entry, and the directories above it. -/
theorem extractMember_eq (id : String) (hclosed : Closed Node.dir target) (hwithin : Within strict work target)
    {path : TreePath} {kind : MemberKind} {node : Node} (hnode : target path.parts = some node)
    (hmakes : Makes target files kind node) (hfiles : ∀ file ∈ files, work file.parts = target file.parts)
    (hfree : node ≠ .dir → work path.parts = none) :
    extractMember id work path.parts (filtered kind) =
      .ok ((work.withParents .dir path.parts).place path.parts node) := by
  have hself : work.withParents .dir path.parts path.parts = work path.parts :=
    withParents_other fun habove => habove.2.2 rfl
  have hmake : makeMember id (work.withParents .dir path.parts) path.parts (filtered kind) =
      .ok ((work.withParents .dir path.parts).place path.parts node) := by
    cases hmakes with
    | dir =>
      rcases hwithin.eq_or_none path.parts (by simp [hnode]) with hsame | hplace
      · rw [hnode] at hsame
        rw [filtered, makeMember, hself, hsame, place_of_some (hself.trans hsame)]
      · rw [filtered, makeMember, hself, hplace]
    | link linkname => rw [filtered, makeMember, hself, hfree (by simp)]
    | file content => rw [filtered, makeMember, hself, hfree (by simp)]
    | @hardLink first content hthere hknown =>
      have hfirst : work.withParents .dir path.parts first.parts = some (.file content) :=
        withParents_of_some ((hfiles first hknown).trans hthere)
      rw [filtered, first.normLinkname_eq, makeMember, hself, hfree (by simp), first.archiveParts_eq, Option.bind_some,
        hfirst]
  unfold extractMember
  split
  · rename_i hblocked
    rcases openParents_of_passable (passable_of_within hclosed hwithin hnode) with hopened | ⟨hmissing, -⟩
    · rw [hopened] at hblocked
      cases hblocked
    · rw [hmissing] at hblocked
      cases hblocked
  · exact hmake

theorem Within.withParents (h : Within strict work target) (hclosed : Closed Node.dir target) {parts : List String}
    {node : Node} (hnode : target parts = some node) : Within strict (work.withParents .dir parts) target := by
  intro q entry hq
  rcases withParents_eq work .dir parts q with hsame | ⟨hdir, habove⟩
  · rw [hsame] at hq
    exact h q entry hq
  · rw [hdir, Option.some.injEq] at hq
    exact .inl (hq ▸ hclosed parts node hnode q habove)

theorem Within.place (h : Within strict work target) {parts : List String} {node : Node}
    (hnode : target parts = some node) : Within strict (work.place parts node) target := by
  intro q entry hq
  by_cases heq : q = parts
  · subst heq
    rw [place_self, Option.some.injEq] at hq
    exact .inl (hq ▸ hnode)
  · rw [place_other heq] at hq
    exact h q entry hq

/-- One member of the extraction: what stood still stands, and the entry of the member is there unless it is a link that
was skipped. A link that is not strict may also stop it. -/
theorem extractOne_spec (id : String) (hclosed : Closed Node.dir target) (hwithin : Within strict work target)
    (hreach : strict → ∀ parts node, target parts = some node → host.lstatError (host.root ++ parts) = none)
    {path : TreePath} {kind : MemberKind} {node : Node} (hnode : target path.parts = some node)
    (hmakes : Makes target files kind node)
    (hlink : strict → ∀ linkname, kind = .link linkname → isAbsolute linkname = false ∧
      ∃ place, host.root <+: place ∧ host.realpathStrict work (path.parts.dropLast ++ segments linkname) = .ok place)
    (hfiles : ∀ file ∈ files, work file.parts = target file.parts) (hfree : node ≠ .dir → work path.parts = none) :
    (¬ strict ∧ ∃ stop, extractOne host id work (path.parts, ⟨path.text, kind⟩) = .error stop) ∨
      ∃ work', extractOne host id work (path.parts, ⟨path.text, kind⟩) = .ok work' ∧ PartOf work work' ∧
        Within strict work' target ∧
        (work' path.parts = some node ∨ ¬ strict ∧ ∃ linkname, node = .link linkname) ∧
        ∀ q, q ≠ path.parts → ¬ Above q path.parts → work' q = work q := by
  rcases restoreFilter_eq id hclosed hwithin hreach hnode hmakes hlink hfiles hfree with
    hfilter | ⟨hloose, ⟨stop, hfilter⟩ | ⟨hfilter, hskipped⟩⟩
  · have hparents := hwithin.withParents hclosed hnode
    refine .inr ⟨(work.withParents .dir path.parts).place path.parts node, ?_, ?_, hparents.place hnode,
      .inl (place_self _ _), ?_⟩
    · rw [extractOne, hfilter]
      exact extractMember_eq id hclosed hwithin hnode hmakes hfiles hfree
    · intro q entry hq
      by_cases heq : q = path.parts
      · subst heq
        rw [place_self]
        cases node with
        | dir =>
          rcases hwithin.eq_or_none path.parts (by simp [hnode]) with hsame | hnone
          · rw [← hq, hsame, hnode]
          · rw [hq] at hnone
            cases hnone
        | link linkname =>
          rw [hfree (by simp)] at hq
          cases hq
        | file content =>
          rw [hfree (by simp)] at hq
          cases hq
      · rw [place_other heq]
        exact withParents_of_some hq
    · intro q hne habove
      rw [place_other hne, withParents_other habove]
  · refine .inl ⟨hloose, stop, ?_⟩
    rw [extractOne, hfilter]
    rfl
  · refine .inr ⟨work, ?_, PartOf.refl work, hwithin, .inr ⟨hloose, hskipped⟩, fun _ _ _ => rfl⟩
    rw [extractOne, hfilter]
    rfl

/-- What stands is what the target has, but for directories and what the members still make. -/
theorem realpathStrict_without (harchive : Archives target files members) (hpart : PartOf work target)
    (hfree : ∀ member ∈ members, member.isDir = false → work (segments member.name) = none)
    (hstands : ∀ parts node, target parts = some node → node ≠ .dir →
      parts ∉ members.map (fun member => segments member.name) → work parts = some node) (rest : List String) :
    host.realpathStrict work rest = host.realpathStrict (withoutMembers target members) rest := by
  refine realpathStrict_congr host (fun parts node hdir => ?_) rest
  rw [withoutMembers_eq_some]
  constructor
  · intro hnode
    refine ⟨fun hmem => ?_, hpart _ _ hnode⟩
    obtain ⟨member, hmember, rfl⟩ := List.mem_map.mp hmem
    obtain ⟨path, node', hname, hnode', hkind, -⟩ := harchive.mem hmember
    have hsame : node = node' := by
      rw [← Option.some.injEq, ← hnode', ← hpart _ _ hnode, hname]
      rfl
    have hnone := hfree member hmember (Bool.eq_false_iff.mpr fun hisDir => hdir (hsame.trans (hkind.mp hisDir)))
    rw [hnode] at hnone
    cases hnone
  · rintro ⟨hnot, hnode⟩
    exact hstands parts node hnode hdir hnot

/-- An extraction on its way: what the members still make is free, and whatever else the target has but directories stands. -/
structure Extracting (strict : Prop) (work target : Work) (files : List TreePath) (members : List Member) : Prop where
  within : Within strict work target
  files : ∀ file ∈ files, work file.parts = target file.parts
  free : ∀ member ∈ members, member.isDir = false → work (segments member.name) = none
  stands : strict → ∀ parts node, target parts = some node → node ≠ .dir →
    parts ∉ members.map (fun member => segments member.name) → work parts = some node

section Extraction

variable {path : TreePath} {kind : MemberKind} {node : Node} {rest : List Member} {next : Work}

theorem Extracting.place_free (h : Extracting strict work target files (⟨path.text, kind⟩ :: rest))
    (makes : Makes target files kind node) (hne : node ≠ .dir) : work path.parts = none := by
  refine h.free _ List.mem_cons_self ?_
  cases makes with
  | dir => exact absurd rfl hne
  | link linkname => rfl
  | file content => rfl
  | hardLink there known => rfl

/-- A link that stays inside over what still comes stays inside over what is there. -/
theorem Extracting.link_inside (h : Extracting strict work target files (⟨path.text, kind⟩ :: rest)) (hstrict : strict)
    (hinside : LinksInside host (⟨path.text, kind⟩ :: rest) target)
    (harchive : Archives target files (⟨path.text, kind⟩ :: rest)) {linkname : String} (hkind : kind = .link linkname) :
    isAbsolute linkname = false ∧
      ∃ place, host.root <+: place ∧ host.realpathStrict work (path.parts.dropLast ++ segments linkname) = .ok place := by
  subst hkind
  have htext := hinside.byText _ List.mem_cons_self linkname rfl
  rw [linkLeaves, Bool.or_eq_false_iff, Bool.or_eq_false_iff] at htext
  obtain ⟨place, hroot, hreal⟩ := hinside.meanwhile _ rest List.suffix_rfl linkname rfl
  refine ⟨htext.1.2, place, hroot, ?_⟩
  rw [realpathStrict_without harchive (h.within.partOf hstrict) h.free (h.stands hstrict)]
  exact hreal

theorem mem_filesWith (makes : Makes target files kind node) {file : TreePath} (hfile : file ∈ filesWith path kind files) :
    file ∈ files ∨ file = path ∧ ∃ content, node = .file content := by
  cases makes with
  | file content => exact (List.mem_cons.mp hfile).symm.imp_right fun h => ⟨h, content, rfl⟩
  | dir => exact .inl hfile
  | link linkname => exact .inl hfile
  | hardLink there known => exact .inl hfile

/-- The extraction goes on after a member that left what was there and touched no place but its own. -/
theorem Extracting.step (h : Extracting strict work target files (⟨path.text, kind⟩ :: rest))
    (hclosed : Closed Node.dir target) (here : target path.parts = some node) (makes : Makes target files kind node)
    (hrest : Archives target (filesWith path kind files) rest)
    (hnodup : ((⟨path.text, kind⟩ :: rest : List Member).map Member.name).Nodup) (hkept : PartOf work next)
    (hnext : Within strict next target)
    (hmade : next path.parts = some node ∨ ¬ strict ∧ ∃ linkname, node = .link linkname)
    (hother : ∀ q, q ≠ path.parts → ¬ Above q path.parts → next q = work q) :
    Extracting strict next target (filesWith path kind files) rest := by
  rw [List.map_cons, List.nodup_cons] at hnodup
  refine ⟨hnext, fun file hfile => ?_, fun member hmember hdir => ?_, fun hstrict parts node' hnode' hdir hnot => ?_⟩
  · rcases mem_filesWith makes hfile with hbefore | ⟨rfl, content, rfl⟩
    · cases hnode : target file.parts with
      | none => exact hnext.none hnode
      | some entry => exact hkept _ _ ((h.files file hbefore).trans hnode)
    · rcases hmade with hmade | ⟨-, linkname, hlink⟩
      · rw [hmade, here]
      · cases hlink
  · obtain ⟨path', node', hname, hnode', hkind, -⟩ := hrest.mem hmember
    rw [hother _ (fun heq => hnodup.1 (List.mem_map.mpr ⟨member, hmember, segments_inj heq⟩))]
    · exact h.free member (List.mem_cons_of_mem _ hmember) hdir
    · intro habove
      have hdir' := hclosed path.parts node here _ habove
      rw [hname] at hdir'
      rw [show target (segments path'.text) = some node' from hnode', Option.some.injEq] at hdir'
      exact absurd (hkind.mpr hdir') (by simp [hdir])
  · by_cases heq : parts = path.parts
    · subst heq
      rcases hmade with hmade | ⟨hloose, -⟩
      · rw [hmade, ← here, hnode']
      · exact absurd hstrict hloose
    · refine hkept _ _ (h.stands hstrict parts node' hnode' hdir ?_)
      rw [List.map_cons, List.mem_cons, not_or]
      exact ⟨heq, hnot⟩

end Extraction

/-- The members of an archive add what the target has at their names, and nothing that it does not have. -/
theorem Archives.extract (id : String) (h : Archives target files members)
    (hinside : strict → LinksInside host members target) (hclosed : Closed Node.dir target)
    (hstate : Extracting strict work target files members) (hnodup : (members.map Member.name).Nodup) :
    (¬ strict ∧ ∃ stop, (withParts members).foldlM (extractOne host id) work = .error stop) ∨
      ∃ work', (withParts members).foldlM (extractOne host id) work = .ok work' ∧ PartOf work work' ∧
        Within strict work' target ∧
        ∀ member ∈ members, (strict ∨ ∀ linkname, target (segments member.name) ≠ some (.link linkname)) →
          work' (segments member.name) = target (segments member.name) := by
  induction h generalizing work with
  | nil => exact .inr ⟨work, rfl, PartOf.refl work, hstate.within, by simp⟩
  | @cons files path kind node rest here makes hrest ih =>
    rcases extractOne_spec id hclosed hstate.within (fun hstrict => (hinside hstrict).reachable) here makes
      (fun hstrict _ hkind => hstate.link_inside hstrict (hinside hstrict) (.cons here makes hrest) hkind) hstate.files
      (hstate.place_free makes) with ⟨hloose, stop, hone⟩ | ⟨next, hone, hkept, hnext, hmade, hother⟩
    · refine .inl ⟨hloose, stop, ?_⟩
      change (extractOne host id work (path.parts, _) >>= _) = _
      rw [hone]
      rfl
    have hrun : (withParts (⟨path.text, kind⟩ :: rest)).foldlM (extractOne host id) work =
        (withParts rest).foldlM (extractOne host id) next := by
      change (extractOne host id work (path.parts, _) >>= _) = _
      rw [hone]
      rfl
    rw [hrun]
    have hstate' := hstate.step hclosed here makes hrest hnodup hkept hnext hmade hother
    rw [List.map_cons, List.nodup_cons] at hnodup
    refine (ih (fun hstrict => (hinside hstrict).tail) hstate' hnodup.2).imp_right ?_
    rintro ⟨work', hok, hfrom, hto, hall⟩
    refine ⟨work', hok, hkept.trans hfrom, hto, fun member hmember hstrict => ?_⟩
    rcases List.mem_cons.mp hmember with rfl | hmember
    · rw [show segments path.text = path.parts from rfl, here] at hstrict ⊢
      rcases hmade with hmade | ⟨hloose, linkname, rfl⟩
      · exact hfrom _ _ hmade
      · exact absurd rfl (hstrict.resolve_left hloose linkname)
    · exact hall member hmember hstrict

/-- The last look at the links takes none that is strict, and nothing but links. -/
theorem unmakeEscapedLinks_spec {accepted : List (List String × Member)}
    (hinside : strict → ∀ entry ∈ accepted, ∀ linkname, entry.2.kind = .link linkname →
      host.escapes target entry.1 = false)
    (h : UpToLinks strict work target) : UpToLinks strict (unmakeEscapedLinks host work accepted) target := by
  unfold unmakeEscapedLinks
  induction accepted generalizing work with
  | nil => exact h
  | cons entry rest ih =>
    rw [List.foldl_cons]
    refine ih (fun hstrict other hother => hinside hstrict other (List.mem_cons_of_mem entry hother)) ?_
    split
    · rename_i linkname linkname' hkind hnode
      split
      · rename_i hescapes
        intro parts
        by_cases heq : parts = entry.1
        · subst heq
          rcases h.within _ _ hnode with hsame | ⟨hloose, -, linkname'', -, hlink⟩
          · refine .inr ⟨fun hstrict => ?_, _, hsame, .inl (if_pos rfl)⟩
            have hstays := hinside hstrict entry List.mem_cons_self linkname hkind
            rw [h.eq hstrict, hstays] at hescapes
            cases hescapes
          · exact .inr ⟨hloose, linkname'', hlink, .inl (if_pos rfl)⟩
        · rw [show work.remove entry.1 parts = work parts from if_neg heq]
          exact h parts
      · exact h
    · exact h

end Making

end SwarmCloud.Checkpoints
