import Xnu.Kauth.Acl
import Xnu.Lib.FirstMatch
import Xnu.Lib.WordBits

namespace Xnu.Kauth

/-! `kauth_acl_evaluate` is the first-match evaluation of its entries read as
rules over the bits of the rights: the residual is what is left of the
request, the generic rights are expanded before an entry is read, and an
entry that is inherit-only or of an unknown kind is skipped. So the prefix
reading of the result, its monotonicity in the request, and its fail-safety
when membership answers fail follow from `FirstMatch`. -/

open FirstMatch

/-- The generic rights of `kauth.h`, `KAUTH_ACE_GENERIC_ALL` (bit 21),
`_READ` (bit 24), `_WRITE` (bit 23) and `_EXECUTE` (bit 22), each with the
expansion the caller passes for it, in the order they are expanded. -/
def genericExpansions (eval : KauthAclEval) : List (Fin 32 × UInt32) :=
  [(21, eval.expGall), (24, eval.expGread), (23, eval.expGwrite), (22, eval.expGexec)]

/-- An entry's rights with its generic rights expanded: each generic right
present in the rights so far adds the rights of its expansion. -/
def expandedRights (eval : KauthAclEval) (rights : Finset (Fin 32)) : Finset (Fin 32) :=
  (genericExpansions eval).foldl (fun r g => if g.1 ∈ r then r ∪ wordBits g.2 else r) rights

/-- An entry as the evaluation reads it: skipped when inherit-only or of a
kind it does not know, else a grant or a deny of its expanded rights that
applies to the credential or not. -/
def aceRule (cred : Cred) (eval : KauthAclEval) (ace : Ace) : Rule (Finset (Fin 32)) :=
  if ace.flags &&& kauthAceOnlyInherit ≠ 0 then .skip
  else
    match aceKind ace.flags with
    | some .permit => .grant (aceApplies cred eval.options .permit ace) (expandedRights eval (wordBits ace.rights))
    | some .deny => .deny (aceApplies cred eval.options .deny ace) (expandedRights eval (wordBits ace.rights))
    | none => .skip

/-- The expansion of `kauth_acl_evaluate` is `expandedRights`, bit for bit. -/
theorem wordBits_expandRights (eval : KauthAclEval) (rights : UInt32) :
    wordBits (expandRights eval rights) = expandedRights eval (wordBits rights) := by
  unfold expandRights expandedRights genericExpansions
  simp only [List.foldl_cons, List.foldl_nil]
  rw [wordBits_or_if (i := 22) (by decide), wordBits_or_if (i := 23) (by decide),
    wordBits_or_if (i := 24) (by decide), wordBits_or_if (i := 21) (by decide)]

/-- The result `kauth_acl_evaluate` writes for a verdict. -/
def resultOf : Verdict → KauthResult
  | .allow => .allow
  | .deny => .deny
  | .defer => .defer

@[simp] theorem resultOf_eq_allow {v : Verdict} : resultOf v = .allow ↔ v = .allow := by
  cases v <;> simp [resultOf]

@[simp] theorem resultOf_eq_deny {v : Verdict} : resultOf v = .deny ↔ v = .deny := by
  cases v <;> simp [resultOf]

@[simp] theorem resultOf_eq_defer {v : Verdict} : resultOf v = .defer ↔ v = .defer := by
  cases v <;> simp [resultOf]

section Refines

variable (cred : Cred) (eval : KauthAclEval)

/-- The rules of an ACL depend on the options and expansions only, not on
what the loop writes. -/
@[simp] theorem aceRule_residual (x : UInt32) : aceRule cred { eval with residual := x } = aceRule cred eval := rfl

@[simp] theorem aceRule_foundDeny (b : Bool) : aceRule cred { eval with foundDeny := b } = aceRule cred eval := rfl

/-- Over the whole loop, with something of the request still wanted, the
entries decide what the first-match evaluation of their rules decides. -/
theorem evalEntries_result : ∀ (aces : List Ace) (eval : KauthAclEval), eval.residual ≠ 0 →
    (evalEntries cred eval aces).result =
      resultOf (run (wordBits eval.requested) (wordBits eval.residual) (aces.map (aceRule cred eval)))
  | [], eval, _ => rfl
  | ace :: rest, eval, left => by
    have ih := evalEntries_result rest
    have wanted : wordBits eval.residual ≠ ⊥ := fun empty => left (wordBits_eq_bot.mp empty)
    rw [List.map_cons]
    by_cases inherits : ace.flags &&& kauthAceOnlyInherit ≠ 0
    · rw [aceRule, if_pos inherits]
      simp only [evalEntries, if_pos inherits, run]
      exact ih eval left
    -- the entry is read by its kind
    rcases kind : aceKind ace.flags with _ | _ | _
    · rw [aceRule, if_neg inherits, kind]
      simp only [evalEntries, if_neg inherits, kind, run]
      exact ih eval left
    · -- a permit takes its rights off the residual when it applies
      rw [aceRule, if_neg inherits, kind, ← wordBits_expandRights]
      simp only [evalEntries, if_neg inherits, kind]
      by_cases untouched : eval.residual &&& expandRights eval ace.rights = 0
      · have same : wordBits eval.residual \ wordBits (expandRights eval ace.rights) = wordBits eval.residual := by
          rw [Finset.sdiff_eq_self_iff_disjoint, Finset.disjoint_iff_inter_eq_empty, ← wordBits_and, untouched,
            wordBits_zero]
        rw [if_pos untouched, ih eval left]
        cases aceApplies cred eval.options .permit ace <;> simp only [run, if_true, Bool.false_eq_true, if_false,
          same, if_neg wanted]
      rw [if_neg untouched]
      by_cases applies : aceApplies cred eval.options .permit ace = true
      · simp only [applies, if_true, run, ← wordBits_and_not]
        by_cases empty : eval.residual &&& ~~~expandRights eval ace.rights = 0
        · rw [if_pos empty, if_pos (wordBits_eq_bot.mpr empty)]
          rfl
        · rw [if_neg empty, if_neg fun bot => empty (wordBits_eq_bot.mp bot)]
          exact ih _ empty
      · simp only [Bool.not_eq_true] at applies
        simp only [applies, Bool.false_eq_true, if_false, run]
        exact ih eval left
    · -- a deny decides when it applies and meets the request
      rw [aceRule, if_neg inherits, kind, ← wordBits_expandRights]
      simp only [evalEntries, if_neg inherits, kind]
      by_cases untouched : eval.requested &&& expandRights eval ace.rights = 0
      · have clear : wordBits eval.requested ⊓ wordBits (expandRights eval ace.rights) = ⊥ := by
          rw [Finset.inf_eq_inter, ← wordBits_and, untouched, wordBits_zero, Finset.bot_eq_empty]
        rw [if_pos untouched, ih eval left]
        simp only [run, clear, ne_eq, not_true_eq_false, and_false, if_false]
      have meets : wordBits eval.requested ⊓ wordBits (expandRights eval ace.rights) ≠ ⊥ := by
        rw [Finset.inf_eq_inter, ← wordBits_and, Finset.bot_eq_empty]
        exact fun empty => untouched (wordBits_eq_empty.mp empty)
      rw [if_neg untouched]
      by_cases applies : aceApplies cred eval.options .deny ace = true
      · simp only [applies, if_true, if_pos untouched, run, true_and, if_pos meets]
        rfl
      · simp only [Bool.not_eq_true] at applies
        simp only [applies, Bool.false_eq_true, if_false, run, false_and]
        exact ih _ left

/-- `kauth_acl_evaluate` decides what the first-match evaluation of the ACL's
rules decides, over the bits of the request. -/
theorem kauthAclEvaluate_result :
    (kauthAclEvaluate cred eval).result =
      resultOf (evaluate (wordBits eval.requested) (eval.acl.map (aceRule cred eval))) := by
  unfold kauthAclEvaluate evaluate
  split
  · rename_i empty
    rw [if_pos (wordBits_eq_bot.mpr empty)]
    rfl
  · rename_i some
    rw [if_neg fun empty => some (wordBits_eq_bot.mp empty), evalEntries_result cred _ _ some]
    rfl

end Refines

section FailSafe

/-- `cred'` gives the answers `cred` gives, or fails where `cred` answers:
`kauth_cred_getguid` and `kauth_cred_ismember_guid` alike. -/
structure Cred.FailsMore (cred' cred : Cred) : Prop where
  guid : cred'.guid = cred.guid ∨ cred'.guid = none
  ismember : ∀ g, cred'.ismemberGuid g = cred.ismemberGuid g ∨ cred'.ismemberGuid g = none

/-- For a permit, `a'` applies only where `a` does; for a deny, wherever `a`
does. -/
def AceKind.Weaker : AceKind → Bool → Bool → Prop
  | .permit, a', a => a' = true → a = true
  | .deny, a', a => a = true → a' = true

theorem AceKind.Weaker.refl (kind : AceKind) (a : Bool) : kind.Weaker a a := by
  cases kind <;> exact id

/-- The pessimistic answer is the weakest. -/
theorem AceKind.Weaker.pessimistic (kind : AceKind) (a : Bool) : kind.Weaker (decide (kind = .deny)) a := by
  cases kind <;> simp [AceKind.Weaker]

variable {cred cred' : Cred} {options options' : UInt32} {eval : KauthAclEval}

/-- With answers that fail more and `KAUTH_AEVAL_IN_GROUP_UNKNOWN` perhaps
set, an entry applies no more often as a permit and no less often as a deny. -/
theorem aceApplies_weaker (fails : cred'.FailsMore cred)
    (unknown : options' = options ∨ options' = options ||| kauthAevalInGroupUnknown) (kind : AceKind) (ace : Ace) :
    kind.Weaker (aceApplies cred' options' kind ace) (aceApplies cred options kind ace) := by
  -- the owner and group bits are those of `options`, and the unknown bit only gets set
  have kept : ∀ bit, kauthAevalInGroupUnknown &&& bit = 0 → options' &&& bit = options &&& bit := fun bit apart => by
    rcases unknown with rfl | rfl
    · rfl
    · exact or_and_of_and_eq_zero options apart
  have raised : options &&& kauthAevalInGroupUnknown ≠ 0 → options' &&& kauthAevalInGroupUnknown ≠ 0 := by
    rcases unknown with rfl | rfl
    · exact id
    · intro _ cleared
      have bits := congrArg wordBits cleared
      simp only [wordBits_and, wordBits_or, Finset.union_inter_cancel_right, wordBits_zero] at bits
      exact absurd bits (by decide)
  unfold aceApplies
  generalize kauthWellknownGuid ace.applicable = wellKnown
  cases wellKnown with
  | owner =>
    dsimp only
    rw [kept kauthAevalIsOwner (by decide)]
    exact .refl kind _
  | everybody => exact .refl kind _
  | nobody => exact .refl kind _
  | group =>
    dsimp only
    by_cases before : (cred.guid.isNone || decide (options &&& kauthAevalInGroupUnknown ≠ 0)) = true
    · have after : (cred'.guid.isNone || decide (options' &&& kauthAevalInGroupUnknown ≠ 0)) = true := by
        rcases Bool.or_eq_true_iff.mp before with noGuid | set
        · rcases fails.guid with same | failed
          · simp [same, noGuid]
          · simp [failed]
        · simp [raised (of_decide_eq_true set)]
      rw [if_pos before, if_pos after]
      exact .refl kind _
    · rw [if_neg before]
      split
      · exact .pessimistic kind _
      · rw [kept kauthAevalInGroup (by decide)]
        exact .refl kind _
  | not =>
    dsimp only
    rcases fails.guid with same | failed
    · rw [same]
      cases cred.guid with
      | none => exact .refl kind _
      | some guid =>
        dsimp only
        split
        · exact .refl kind _
        · rcases fails.ismember ace.applicable with answered | failed
          · rw [answered]
            exact .refl kind _
          · rw [failed]
            exact .pessimistic kind _
    · rw [failed]
      exact .pessimistic kind _

/-- So each entry reads as a weaker rule. -/
theorem aceRule_weaker (fails : cred'.FailsMore cred)
    (unknown : options' = eval.options ∨ options' = eval.options ||| kauthAevalInGroupUnknown) (ace : Ace) :
    (aceRule cred' { eval with options := options' } ace).Weaker (aceRule cred eval ace) := by
  unfold aceRule
  split
  · trivial
  · cases aceKind ace.flags with
    | none => trivial
    | some kind =>
      have weaker := aceApplies_weaker fails unknown kind ace
      cases kind with
      | permit => exact ⟨rfl, weaker⟩
      | deny => exact ⟨rfl, weaker⟩

theorem aclRules_weaker (fails : cred'.FailsMore cred)
    (unknown : options' = eval.options ∨ options' = eval.options ||| kauthAevalInGroupUnknown) :
    ∀ aces : List Ace,
      List.Forall₂ Rule.Weaker (aces.map (aceRule cred' { eval with options := options' })) (aces.map (aceRule cred eval))
  | [] => .nil
  | ace :: rest => .cons (aceRule_weaker fails unknown ace) (aclRules_weaker fails unknown rest)

end FailSafe

section Claim

variable (cred : Cred) (eval : KauthAclEval)

theorem kauthAclEvaluate_allow_iff :
    (kauthAclEvaluate cred eval).result = .allow ↔
      Allows (wordBits eval.requested) (eval.acl.map (aceRule cred eval)) := by
  rw [kauthAclEvaluate_result, resultOf_eq_allow, evaluate_eq_allow_iff]

theorem kauthAclEvaluate_deny_iff :
    (kauthAclEvaluate cred eval).result = .deny ↔
      Denies (wordBits eval.requested) (eval.acl.map (aceRule cred eval)) := by
  rw [kauthAclEvaluate_result, resultOf_eq_deny, evaluate_eq_deny_iff]

theorem kauthAclEvaluate_defer_iff :
    (kauthAclEvaluate cred eval).result = .defer ↔
      ¬Allows (wordBits eval.requested) (eval.acl.map (aceRule cred eval)) ∧
        ¬Denies (wordBits eval.requested) (eval.acl.map (aceRule cred eval)) := by
  rw [kauthAclEvaluate_result, resultOf_eq_defer, evaluate_eq_defer_iff]

/-- The well-known GUID of everybody. -/
def everybodyGuid : Guid :=
  ⟨#[0xab, 0xcd, 0xef, 0xab, 0xcd, 0xef, 0xab, 0xcd, 0xef, 0xab, 0xcd, 0xef, 0x00, 0x00, 0x00, 0x0c], rfl⟩

/-- An ACL that denies everybody `KAUTH_ACE_GENERIC_WRITE` and then grants
everybody `KAUTH_ACE_GENERIC_ALL`, where generic-all expands to rights 0 and 1
and generic-write to right 1, for a credential whose GUID cannot be had. -/
def genericEval : KauthAclEval :=
  ⟨[⟨everybodyGuid, kauthAceDeny, kauthAceGenericWrite⟩, ⟨everybodyGuid, kauthAcePermit, kauthAceGenericAll⟩],
    3, 0, .defer, false, 0, 3, 0, 2, 0⟩

end Claim

end Xnu.Kauth
