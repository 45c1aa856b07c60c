import Xnu.Lib.Bytes

namespace Xnu.Kauth

/-! `kauth_acl_evaluate` of `bsd/kern/kern_authorization.c`, with
`kauth_wellknown_guid` of `bsd/kern/kern_credential.c`. The credential is what
the evaluation asks of it: its GUID from `kauth_cred_getguid`, and the answer
of `kauth_cred_ismember_guid` for a GUID, either of which may fail. The
`KAUTH_DEBUG` tracing and the `0` the function always returns are left out. -/

/-- `guid_t`: sixteen bytes. -/
def Guid : Type := Vector UInt8 16

instance : DecidableEq Guid := inferInstanceAs (DecidableEq (Vector UInt8 16))

/-- `KAUTH_WKG_NOT`, `KAUTH_WKG_OWNER`, `KAUTH_WKG_GROUP`,
`KAUTH_WKG_NOBODY` and `KAUTH_WKG_EVERYBODY`. -/
inductive WellKnown where
  | not
  | owner
  | group
  | nobody
  | everybody
deriving DecidableEq, Repr

/-- The twelve bytes every well-known GUID begins with. -/
def wkgFingerprint : List UInt8 := [0xab, 0xcd, 0xef, 0xab, 0xcd, 0xef, 0xab, 0xcd, 0xef, 0xab, 0xcd, 0xef]

/-- `kauth_wellknown_guid(guid)`: the last four bytes, in network order, name
the well-known GUID. -/
def kauthWellknownGuid (guid : Guid) : WellKnown :=
  if guid.toList.take 12 = wkgFingerprint then
    let code := beWord (Vector.get guid 12) (Vector.get guid 13) (Vector.get guid 14) (Vector.get guid 15)
    if code = 0x0000000c then .everybody
    else if code = 0xfffffffe then .nobody
    else if code = 0x0000000a then .owner
    else if code = 0x00000010 then .group
    else .not
  else .not

/-- `KAUTH_ACE_KINDMASK`. -/
def kauthAceKindmask : UInt32 := 0xf

/-- `KAUTH_ACE_PERMIT`. -/
def kauthAcePermit : UInt32 := 1

/-- `KAUTH_ACE_DENY`. -/
def kauthAceDeny : UInt32 := 2

/-- `KAUTH_ACE_ONLY_INHERIT`. -/
def kauthAceOnlyInherit : UInt32 := (1 : UInt32) <<< 8

/-- `KAUTH_ACE_GENERIC_ALL`. -/
def kauthAceGenericAll : UInt32 := (1 : UInt32) <<< 21

/-- `KAUTH_ACE_GENERIC_EXECUTE`. -/
def kauthAceGenericExecute : UInt32 := (1 : UInt32) <<< 22

/-- `KAUTH_ACE_GENERIC_WRITE`. -/
def kauthAceGenericWrite : UInt32 := (1 : UInt32) <<< 23

/-- `KAUTH_ACE_GENERIC_READ`. -/
def kauthAceGenericRead : UInt32 := (1 : UInt32) <<< 24

/-- `KAUTH_AEVAL_IS_OWNER`. -/
def kauthAevalIsOwner : UInt32 := (1 : UInt32) <<< 0

/-- `KAUTH_AEVAL_IN_GROUP`. -/
def kauthAevalInGroup : UInt32 := (1 : UInt32) <<< 1

/-- `KAUTH_AEVAL_IN_GROUP_UNKNOWN`. -/
def kauthAevalInGroupUnknown : UInt32 := (1 : UInt32) <<< 2

/-- `KAUTH_RESULT_ALLOW`, `KAUTH_RESULT_DENY` and `KAUTH_RESULT_DEFER`. -/
inductive KauthResult where
  | allow
  | deny
  | defer
deriving DecidableEq, Repr

/-- `struct kauth_ace`. -/
structure Ace where
  applicable : Guid
  flags : UInt32
  rights : UInt32

/-- `struct kauth_acl_eval`: the entries `ae_acl[0 .. ae_count)`, the request,
the options and the expansions of the generic rights, and what the evaluation
writes back. The `int` options are read only through their bits. -/
structure KauthAclEval where
  acl : List Ace
  requested : UInt32
  residual : UInt32
  result : KauthResult
  foundDeny : Bool
  options : UInt32
  expGall : UInt32
  expGread : UInt32
  expGwrite : UInt32
  expGexec : UInt32

/-- What `kauth_acl_evaluate` asks of the credential: `kauth_cred_getguid`,
and `kauth_cred_ismember_guid` for a GUID; `none` where the call fails. -/
structure Cred where
  guid : Option Guid
  ismemberGuid : Guid → Option Bool

/-- The entry kinds the evaluation acts on. -/
inductive AceKind where
  | permit
  | deny
deriving DecidableEq, Repr

/-- `ace_flags & KAUTH_ACE_KINDMASK`, for the kinds the evaluation knows. -/
def aceKind (flags : UInt32) : Option AceKind :=
  if flags &&& kauthAceKindmask = kauthAcePermit then some .permit
  else if flags &&& kauthAceKindmask = kauthAceDeny then some .deny
  else none

/-- The rights of an entry with its generic rights expanded, tested in the
order of the source. -/
def expandRights (eval : KauthAclEval) (rights : UInt32) : UInt32 :=
  let rights := if rights &&& kauthAceGenericAll ≠ 0 then rights ||| eval.expGall else rights
  let rights := if rights &&& kauthAceGenericRead ≠ 0 then rights ||| eval.expGread else rights
  let rights := if rights &&& kauthAceGenericWrite ≠ 0 then rights ||| eval.expGwrite else rights
  if rights &&& kauthAceGenericExecute ≠ 0 then rights ||| eval.expGexec else rights

/-- Whether an entry of kind `kind` applies to the credential: the switch on
`kauth_wellknown_guid`. A membership that cannot be resolved counts as no for
a permit and as yes for a deny. -/
def aceApplies (cred : Cred) (options : UInt32) (kind : AceKind) (ace : Ace) : Bool :=
  match kauthWellknownGuid ace.applicable with
  | .owner => options &&& kauthAevalIsOwner ≠ 0
  | .group =>
    if cred.guid.isNone || options &&& kauthAevalInGroupUnknown ≠ 0 then kind = .deny
    else options &&& kauthAevalInGroup ≠ 0
  | .everybody => true
  | .nobody => false
  | .not =>
    match cred.guid with
    | none => kind = .deny
    | some guid =>
      if guid = ace.applicable then true
      else
        match cred.ismemberGuid ace.applicable with
        | some member => member
        | none => kind = .deny

/-- The `for` loop of `kauth_acl_evaluate` over the entries, with
`ae_residual` and `ae_found_deny` kept in `eval`. -/
def evalEntries (cred : Cred) : KauthAclEval → List Ace → KauthAclEval
  | eval, [] => { eval with result := .defer }
  | eval, ace :: rest =>
    if ace.flags &&& kauthAceOnlyInherit ≠ 0 then evalEntries cred eval rest
    else
      let rights := expandRights eval ace.rights
      match aceKind ace.flags with
      | some .permit =>
        if eval.residual &&& rights = 0 then evalEntries cred eval rest
        else if aceApplies cred eval.options .permit ace then
          let eval := { eval with residual := eval.residual &&& ~~~rights }
          if eval.residual = 0 then { eval with result := .allow } else evalEntries cred eval rest
        else evalEntries cred eval rest
      | some .deny =>
        if eval.requested &&& rights = 0 then evalEntries cred eval rest
        else
          let eval := { eval with foundDeny := true }
          if aceApplies cred eval.options .deny ace then
            if eval.requested &&& rights ≠ 0 then { eval with result := .deny } else evalEntries cred eval rest
          else evalEntries cred eval rest
      | none => evalEntries cred eval rest

/-- `kauth_acl_evaluate(cred, eval)`. -/
def kauthAclEvaluate (cred : Cred) (eval : KauthAclEval) : KauthAclEval :=
  if eval.requested = 0 then { eval with result := .allow }
  else evalEntries cred { eval with residual := eval.requested, foundDeny := false } eval.acl

end Xnu.Kauth
