import Yuki.Identity.Merging

/-! Who may read which memory: the targets a requester resolves to, and the
conditions each read path puts on the facts. -/

namespace Yuki.MemoryReads

open Identity

inductive ScopeType
  | person | personGroup | group | self
deriving DecidableEq

inductive SelfMemoryVisibility
  | global | private_ | group
deriving DecidableEq

inductive FactStatus
  | active | contested | superseded | invalidated
deriving DecidableEq

inductive ReviewState
  | legacyUnreviewed | verified | quarantined
deriving DecidableEq

/-- The owner columns of a fact or of a target. -/
structure Owner where
  scopeType : ScopeType
  visibilityType : Option SelfMemoryVisibility := none
  canonicalSubjectPersonId : Option String := none
  canonicalSubjectSpaceId : Option String := none
  canonicalVisibilityPersonId : Option String := none
  canonicalVisibilitySpaceId : Option String := none
deriving DecidableEq

def truthy (id : Option String) : Bool :=
  id.any (· ≠ "")

/-- `canonical_fact_owner_complete`. -/
def canonicalFactOwnerComplete (o : Owner) : Bool :=
  let person := truthy o.canonicalSubjectPersonId
  let space := truthy o.canonicalSubjectSpaceId
  let visibilityPerson := truthy o.canonicalVisibilityPersonId
  let visibilitySpace := truthy o.canonicalVisibilitySpaceId
  match o.scopeType with
  | .self => match o.visibilityType with
    | none | some .global => !person && !space && !visibilityPerson && !visibilitySpace
    | some .private_ => visibilityPerson && !person && !space && !visibilitySpace
    | some .group => visibilitySpace && !person && !space && !visibilityPerson
  | .person => person && !space && !visibilityPerson && !visibilitySpace
  | .group => space && !person && !visibilityPerson && !visibilitySpace
  | .personGroup => person && space && !visibilityPerson && !visibilitySpace

/-- `ck_memory_facts_scope_identity`. -/
def scopeIdentity (o : Owner) : Bool :=
  match o.scopeType with
  | .person => o.canonicalSubjectPersonId.isSome && o.canonicalSubjectSpaceId.isNone
  | .personGroup => o.canonicalSubjectPersonId.isSome && o.canonicalSubjectSpaceId.isSome
  | .group => o.canonicalSubjectPersonId.isNone && o.canonicalSubjectSpaceId.isSome
  | .self => o.canonicalSubjectPersonId.isNone && o.canonicalSubjectSpaceId.isNone

/-- `ck_memory_facts_self_visibility`. -/
def selfVisibility (o : Owner) : Bool :=
  let person := o.canonicalVisibilityPersonId
  let space := o.canonicalVisibilitySpaceId
  match o.scopeType, o.visibilityType with
  | .self, some .global => person.isNone && space.isNone
  | .self, some .private_ => person.isSome && space.isNone
  | .self, some .group => person.isNone && space.isSome
  | .self, none => false
  | _, visibility => visibility.isNone && person.isNone && space.isNone

/-- The columns of `memory_facts` that a read path tests. -/
structure FactRow where
  id : Nat
  owner : Owner
  status : FactStatus
  reviewState : ReviewState
  validUntil : Option Int
deriving DecidableEq

structure MembershipRow where
  canonicalPersonId : String
  canonicalSpaceId : String
deriving DecidableEq

/-- A database whose rows meet their constraints: ids are not empty, merges are flat, facts have
complete owners, and what is referenced exists. -/
structure MemoryDb where
  persons : Table Person.id
  spaces : List String
  memberships : List MembershipRow
  facts : Table FactRow.id
  rooted : Rooted persons
  personIds : ∀ person ∈ persons.rows, person.id ≠ ""
  spaceIds : "" ∉ spaces
  members : ∀ m ∈ memberships,
    m.canonicalPersonId ∈ persons.rows.map (·.id) ∧ m.canonicalSpaceId ∈ spaces
  complete : ∀ f ∈ facts.rows, canonicalFactOwnerComplete f.owner = true ∧
    scopeIdentity f.owner = true ∧ selfVisibility f.owner = true
  subjects : ∀ f ∈ facts.rows, ∀ p, f.owner.canonicalSubjectPersonId = some p →
    p ∈ persons.rows.map (·.id)

inductive TargetRole
  | currentSelf | currentPerson | currentPersonGroup | currentGroup | referencedPerson
  | referencedPersonGroup
deriving DecidableEq

/-- `MemoryEntityTarget` with canonical owners. -/
structure MemoryEntityTarget where
  role : TargetRole
  owner : Owner
  blockId : String
deriving DecidableEq

section Conditions

variable (db : MemoryDb)

/-- `person_family_condition`; a null matches nothing. -/
def personFamilyCondition (column : Option String) (personId : String) : Bool :=
  match personRootId db.persons personId with
  | none => false
  | some root => column.any fun c =>
      db.persons.rows.any fun person => person.id = c && person.inFamily root

/-- `same_person_condition`. -/
def samePersonCondition (left right : Option String) : Bool :=
  match left.bind (personRootId db.persons), right.bind (personRootId db.persons) with
  | some l, some r => l = r
  | _, _ => false

/-- `AuthorizedMemoryScope`. -/
structure AuthorizedMemoryScope where
  requesterPersonId : Option String := none
  requesterFamilyIds : List String := []
  currentSpaceId : Option String := none
  currentPrivatePersonId : Option String := none
  currentGroupOnly : Bool := false
  allowedScopes : List ScopeType := []
  resolvedTargets : List MemoryEntityTarget := []

def globalVisibility (o : Owner) : Bool :=
  o.visibilityType = some .global && o.canonicalVisibilityPersonId.isNone &&
    o.canonicalVisibilitySpaceId.isNone

/-- `member_of_fact_space`. -/
def memberOfFactSpace (requester : String) (o : Owner) : Bool :=
  db.memberships.any fun m =>
    personFamilyCondition db (some m.canonicalPersonId) requester &&
      o.canonicalSubjectSpaceId = some m.canonicalSpaceId

/-- `direct_shared_group`. -/
def directSharedGroup (requester : String) (o : Owner) : Bool :=
  db.memberships.any fun first => db.memberships.any fun second =>
    second.canonicalSpaceId = first.canonicalSpaceId &&
      personFamilyCondition db (some first.canonicalPersonId) requester &&
      samePersonCondition db (some second.canonicalPersonId) o.canonicalSubjectPersonId

/-- `owner_in_fact_space`. -/
def ownerInFactSpace (o : Owner) : Bool :=
  db.memberships.any fun m =>
    samePersonCondition db (some m.canonicalPersonId) o.canonicalSubjectPersonId &&
      o.canonicalSubjectSpaceId = some m.canonicalSpaceId

/-- The clauses a requester has. -/
def requesterClauses (allowed : List ScopeType) (requester : String) (o : Owner) : Bool :=
  (allowed.contains .person && o.scopeType = .person && o.canonicalSubjectPersonId.isSome &&
    o.canonicalSubjectSpaceId.isNone &&
    (personFamilyCondition db o.canonicalSubjectPersonId requester ||
      directSharedGroup db requester o)) ||
  (allowed.contains .personGroup && o.scopeType = .personGroup &&
    o.canonicalSubjectPersonId.isSome && o.canonicalSubjectSpaceId.isSome &&
    memberOfFactSpace db requester o && ownerInFactSpace db o) ||
  (allowed.contains .group && o.scopeType = .group && o.canonicalSubjectPersonId.isNone &&
    o.canonicalSubjectSpaceId.isSome && memberOfFactSpace db requester o)

/-- `permitted` of `authorized_fact_condition`. -/
def permitted (scope : AuthorizedMemoryScope) (o : Owner) : Bool :=
  (match scope.requesterPersonId with
    | some requester => requesterClauses db scope.allowedScopes requester o
    | none => scope.currentGroupOnly && scope.currentSpaceId.isSome &&
        scope.allowedScopes.contains .group && o.scopeType = .group &&
        o.canonicalSubjectPersonId.isNone && o.canonicalSubjectSpaceId = scope.currentSpaceId) ||
  (scope.allowedScopes.contains .self && o.scopeType = .self &&
    o.canonicalSubjectPersonId.isNone && o.canonicalSubjectSpaceId.isNone &&
    (globalVisibility o ||
      (scope.currentPrivatePersonId.any fun p => o.visibilityType = some .private_ &&
        personFamilyCondition db o.canonicalVisibilityPersonId p &&
        o.canonicalVisibilitySpaceId.isNone) ||
      (scope.currentSpaceId.isSome && o.visibilityType = some .group &&
        o.canonicalVisibilityPersonId.isNone &&
        o.canonicalVisibilitySpaceId = scope.currentSpaceId)))

/-- The family of an id, or null where there is none. -/
def familyOrNull (column id : Option String) : Bool :=
  match id with
  | some p => personFamilyCondition db column p
  | none => column.isNone

/-- `selected` for one target. -/
def selectedBy (target : MemoryEntityTarget) (o : Owner) : Bool :=
  match target.owner.scopeType with
  | .self => o.scopeType = .self && (globalVisibility o ||
      (target.owner.visibilityType.isSome && o.visibilityType = target.owner.visibilityType &&
        familyOrNull db o.canonicalVisibilityPersonId target.owner.canonicalVisibilityPersonId &&
        o.canonicalVisibilitySpaceId = target.owner.canonicalVisibilitySpaceId))
  | scopeType => o.scopeType = scopeType &&
      familyOrNull db o.canonicalSubjectPersonId target.owner.canonicalSubjectPersonId &&
      o.canonicalSubjectSpaceId = target.owner.canonicalSubjectSpaceId

/-- `authorized_fact_condition`. -/
def authorizedFactCondition (scope : AuthorizedMemoryScope) (f : FactRow) : Bool :=
  permitted db scope f.owner &&
    (scope.resolvedTargets.isEmpty || scope.resolvedTargets.any fun t => selectedBy db t f.owner)

def FactRow.unexpired (f : FactRow) (now : Int) : Bool :=
  f.validUntil.all (now < ·)

/-- Active, not quarantined, and not expired. -/
def FactRow.readable (f : FactRow) (now : Int) : Bool :=
  f.status = .active && f.reviewState ≠ .quarantined && f.unexpired now

variable (transport : MemoryEntityTarget → Option Owner)

/-- `resolve_fact_canonical_owners`: a complete owner is its own; `transport` is the resolution of
the others, nothing an error. -/
def resolveFactCanonicalOwners (target : MemoryEntityTarget) : Option Owner :=
  if canonicalFactOwnerComplete target.owner then some target.owner else transport target

def noVisibility (o : Owner) : Bool :=
  o.visibilityType.isNone && o.canonicalVisibilityPersonId.isNone &&
    o.canonicalVisibilitySpaceId.isNone

/-- `_scope_filter`: ids are compared as they are. -/
def scopeFilter (target : MemoryEntityTarget) (owners : Owner) (o : Owner) : Bool :=
  o.scopeType = target.owner.scopeType &&
    o.canonicalSubjectPersonId = owners.canonicalSubjectPersonId &&
    o.canonicalSubjectSpaceId = owners.canonicalSubjectSpaceId &&
    if target.owner.scopeType = .self then
      globalVisibility o ||
        (target.owner.visibilityType.isSome && o.visibilityType = target.owner.visibilityType &&
          o.canonicalVisibilityPersonId = owners.canonicalVisibilityPersonId &&
          o.canonicalVisibilitySpaceId = owners.canonicalVisibilitySpaceId)
    else noVisibility o

/-- The scope and state conditions of `search`. -/
def searchLets (now : Int) (target : MemoryEntityTarget) (f : FactRow) : Bool :=
  (resolveFactCanonicalOwners transport target).any fun owners =>
    f.status = .active && f.unexpired now && scopeFilter target owners f.owner

/-- `_async_target_conditions` but for the error, which `load_target_vectors` spells out too. -/
def targetConditions (target : MemoryEntityTarget) (owners : Owner) (o : Owner) : Bool :=
  o.scopeType = target.owner.scopeType &&
    familyOrNull db o.canonicalSubjectPersonId owners.canonicalSubjectPersonId &&
    o.canonicalSubjectSpaceId = owners.canonicalSubjectSpaceId &&
    if target.owner.scopeType = .self then
      globalVisibility o ||
        (target.owner.visibilityType.isSome && o.visibilityType = target.owner.visibilityType &&
          familyOrNull db o.canonicalVisibilityPersonId owners.canonicalVisibilityPersonId &&
          o.canonicalVisibilitySpaceId = owners.canonicalVisibilitySpaceId)
    else noVisibility o

/-- The conditions of `get_active_for_target`. -/
def getActiveLets (now : Int) (target : MemoryEntityTarget) (f : FactRow) : Bool :=
  (resolveFactCanonicalOwners transport target).any (fun owners =>
    targetConditions db target owners f.owner) && f.readable now

/-- The conditions of `load_target_vectors`. -/
def vectorLets (now : Int) (target : MemoryEntityTarget) (f : FactRow) : Bool :=
  (resolveFactCanonicalOwners transport target).any fun owners =>
    f.readable now && targetConditions db target owners f.owner

end Conditions

/-! The resolver. -/

section Resolver

variable (db : MemoryDb)

/-- `authorized`, for a requester outside any scene. -/
def authorized (requester : String) (resolvedTargets : List MemoryEntityTarget) :
    AuthorizedMemoryScope :=
  let personId := if requester = "" then none else personRootId db.persons requester
  { requesterPersonId := personId
    requesterFamilyIds := (personId.map (familyOf db.persons)).getD []
    allowedScopes := [.person, .personGroup, .group, .self]
    resolvedTargets := resolvedTargets }

/-- `_groups`. -/
def groupsOf (personId : String) : List String :=
  (db.memberships.filter fun m =>
    personFamilyCondition db (some m.canonicalPersonId) personId).map (·.canonicalSpaceId)

/-- The current person of a key: its own id, or the one the caller supplies. -/
def ownerOf (personIds : List (String × String)) (requester : String) (targets : List String)
    (key : String) : Option String :=
  if (requester :: targets).contains key && (db.persons.get? key).isSome then
    personRootId db.persons key
  else (personIds.lookup key).bind (personRootId db.persons)

/-- The spaces a person shares with the requester, out of the memberships of the candidates. -/
def sharedGroups (requesterId : String) (candidates : List String) (personId : String) :
    List String :=
  (db.memberships.filter fun m =>
    (db.persons.get? m.canonicalPersonId).any (fun subject =>
      subject.root = personId && candidates.any fun c => subject.inFamily c) &&
      (groupsOf db requesterId).contains m.canonicalSpaceId).map (·.canonicalSpaceId)

def personTarget (own : Bool) (personId : String) : MemoryEntityTarget where
  role := if own then .currentPerson else .referencedPerson
  owner := { scopeType := .person, canonicalSubjectPersonId := some personId }
  blockId := if own then "current_person" else "referenced_person:" ++ personId

def personGroupTarget (own : Bool) (personId spaceId : String) : MemoryEntityTarget where
  role := if own then .currentPersonGroup else .referencedPersonGroup
  owner := { scopeType := .personGroup, canonicalSubjectPersonId := some personId,
             canonicalSubjectSpaceId := some spaceId }
  blockId := "person_group:" ++ personId ++ ":" ++ spaceId

/-- What `people` resolves one target to. -/
def personScope (personIds : List (String × String)) (requesterId requester : String)
    (targets : List String) (groupId : Option String) (includePersonGroups restrictToGroup : Bool)
    (target : String) : Option (List MemoryEntityTarget) := do
  let personId ← ownerOf db personIds requester targets target
  let candidates := targets.filterMap (ownerOf db personIds requester targets)
  let loaded := includePersonGroups || groupId.isSome || candidates.any (· ≠ requesterId)
  let shared := if loaded then sharedGroups db requesterId (requesterId :: candidates) personId
    else []
  let own := decide (requesterId = personId)
  if !own && shared.isEmpty then none
  else
    let selected := groupId.filter db.spaces.contains
    let chosen := selected.any shared.contains
    if groupId.isSome && !chosen && restrictToGroup then none
    else
      let spaces := if groupId.isNone then shared else if chosen then selected.toList else []
      let groups := if includePersonGroups then
          (spaces.dedup.insertionSort (· ≤ ·)).map (personGroupTarget own personId)
        else []
      return personTarget own personId :: groups

/-- `people`. -/
def people (personIds : List (String × String)) (requester : String) (targets : List String)
    (groupId : Option String) (includePersonGroups restrictToGroup : Bool) :
    List (String × List MemoryEntityTarget) :=
  match (ownerOf db personIds requester targets requester).or (personRootId db.persons requester) with
  | none => []
  | some requesterId => targets.dedup.filterMap fun target =>
      (personScope db personIds requesterId requester targets groupId includePersonGroups
        restrictToGroup target).map fun scope => (target, scope)

/-- `group`. -/
def group (requester groupId : String) : List MemoryEntityTarget :=
  let groups := ((personRootId db.persons requester).map (groupsOf db)).getD []
  if db.spaces.contains groupId && groups.contains groupId then
    [{ role := .currentGroup
       owner := { scopeType := .group, canonicalSubjectSpaceId := some groupId }
       blockId := "group:" ++ groupId }]
  else []

end Resolver

end Yuki.MemoryReads
