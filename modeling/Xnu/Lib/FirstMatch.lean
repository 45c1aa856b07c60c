import Mathlib

namespace Xnu

/-! First-match evaluation of an access list against a request for a set of
rights, over any Boolean algebra of rights. The entries are read from the
top: an applicable grant takes its rights off what is still wanted and allows
once nothing is left, an applicable deny that meets the request denies, and
the end of the list defers. Its declarative reading: the list allows exactly
when some prefix grants the whole request with no applicable deny in it that
meets the request, and denies exactly when such a deny comes before the
grants cover the request. Asking for less, or weakening the entries (fewer
grants apply, more denies do), moves the verdict only one way. -/

namespace FirstMatch

/-- An entry of an access list as it stands for one request: a grant or a
deny of some rights, with whether it applies to the requester; or an entry
that is skipped. -/
inductive Rule (β : Type*) where
  | grant (applies : Bool) (rights : β)
  | deny (applies : Bool) (rights : β)
  | skip

/-- What an evaluation decides. -/
inductive Verdict where
  | allow
  | deny
  | defer
deriving DecidableEq, Repr

variable {β : Type*} [BooleanAlgebra β]

namespace Rule

/-- The rights an entry grants. -/
def grants : Rule β → β
  | .grant applies s => if applies then s else ⊥
  | _ => ⊥

/-- An applicable deny that meets the request `R`. -/
def Denies (R : β) : Rule β → Prop
  | .deny applies s => applies = true ∧ ¬Disjoint R s
  | _ => False

/-- `r'` is `r` with a grant that may no longer apply or a deny that may now
apply. -/
def Weaker : Rule β → Rule β → Prop
  | .grant a' s', .grant a s => s' = s ∧ (a' = true → a = true)
  | .deny a' s', .deny a s => s' = s ∧ (a = true → a' = true)
  | .skip, .skip => True
  | _, _ => False

theorem Denies.mono {R R' : β} {r : Rule β} (le : R' ≤ R) (denies : r.Denies R') : r.Denies R := by
  cases r with
  | deny applies s => exact ⟨denies.1, fun disjoint => denies.2 (disjoint.mono_left le)⟩
  | grant => exact denies.elim
  | skip => exact denies.elim

theorem Weaker.grants_le {r r' : Rule β} (weaker : r'.Weaker r) : r'.grants ≤ r.grants := by
  cases r' <;> cases r <;> simp only [Weaker] at weaker
  case grant.grant a' s' a s =>
    obtain ⟨rfl, applies⟩ := weaker
    cases a' <;> cases a <;> simp_all [grants]
  all_goals exact le_rfl

theorem Weaker.denies {R : β} {r r' : Rule β} (weaker : r'.Weaker r) (denies : r.Denies R) : r'.Denies R := by
  cases r' <;> cases r <;> simp only [Weaker, Denies] at weaker denies
  case deny.deny a' s' a s =>
    obtain ⟨rfl, applies⟩ := weaker
    exact ⟨applies denies.1, denies.2⟩

end Rule

/-- The rights the applicable grants of `rules` give. -/
def granted : List (Rule β) → β
  | [] => ⊥
  | r :: rest => r.grants ⊔ granted rest

/-- Some applicable deny of `rules` meets `R`. -/
def DeniedIn (R : β) (rules : List (Rule β)) : Prop := ∃ r ∈ rules, r.Denies R

/-- Some prefix of `rules` grants all of `R`, with no applicable deny in it
that meets `R`. -/
def Allows (R : β) (rules : List (Rule β)) : Prop :=
  ∃ n, R ≤ granted (rules.take n) ∧ ¬DeniedIn R (rules.take n)

/-- An applicable deny that meets `R` comes before the grants above it cover
`R`. -/
def Denies (R : β) (rules : List (Rule β)) : Prop :=
  ∃ n r, rules[n]? = some r ∧ r.Denies R ∧ ¬R ≤ granted (rules.take n)

@[simp] theorem granted_nil : granted ([] : List (Rule β)) = ⊥ := rfl

@[simp] theorem granted_cons (r : Rule β) (rest : List (Rule β)) :
    granted (r :: rest) = r.grants ⊔ granted rest := rfl

theorem deniedIn_cons {R : β} {r : Rule β} {rest : List (Rule β)} :
    DeniedIn R (r :: rest) ↔ r.Denies R ∨ DeniedIn R rest := by
  simp [DeniedIn]

/-- What the entries above the `n + 1`-th grant, past the first. -/
theorem granted_take_succ (g : β) (r : Rule β) (rest : List (Rule β)) (n : Nat) :
    g ⊔ granted ((r :: rest).take (n + 1)) = g ⊔ r.grants ⊔ granted (rest.take n) := by
  rw [List.take_succ_cons, granted_cons, sup_assoc]

section Run

variable [DecidableEq β]

/-- First-match evaluation of `rules` for the request `R`, with `left` of it
not yet granted. -/
def run (R : β) : β → List (Rule β) → Verdict
  | _, [] => .defer
  | left, .grant applies s :: rest =>
    if applies then (if left \ s = ⊥ then .allow else run R (left \ s) rest) else run R left rest
  | left, .deny applies s :: rest => if applies ∧ R ⊓ s ≠ ⊥ then .deny else run R left rest
  | left, .skip :: rest => run R left rest

/-- An empty request is allowed; any other is evaluated from the top. -/
def evaluate (R : β) (rules : List (Rule β)) : Verdict :=
  if R = ⊥ then .allow else run R R rules

variable {R g : β} {r : Rule β} {rest : List (Rule β)}

/-- An entry that denies decides the evaluation. -/
theorem run_cons_of_denies (denies : r.Denies R) : run R (R \ g) (r :: rest) = .deny := by
  cases r with
  | deny applies s =>
    obtain ⟨rfl, meets⟩ := denies
    rw [run, if_pos ⟨rfl, fun bot => meets (disjoint_iff.mpr bot)⟩]
  | grant => exact denies.elim
  | skip => exact denies.elim

/-- Otherwise the entry's grants are taken off what is left: it allows when
nothing is left, and the evaluation goes on below it when something is. -/
theorem run_cons_of_not_denies (open_ : ¬R ≤ g) (passes : ¬r.Denies R) :
    run R (R \ g) (r :: rest) =
      if R \ (g ⊔ r.grants) = ⊥ then .allow else run R (R \ (g ⊔ r.grants)) rest := by
  cases r with
  | grant applies s =>
    cases applies
    · have left : R \ g ≠ ⊥ := fun bot => open_ (sdiff_eq_bot_iff.mp bot)
      simp only [run, Rule.grants, Bool.false_eq_true, if_false, sup_bot_eq, if_neg left]
    · simp only [run, Rule.grants, if_true, sdiff_sdiff_left]
  | deny applies s =>
    have clear : ¬(applies = true ∧ R ⊓ s ≠ ⊥) := fun ⟨applies, meets⟩ =>
      passes ⟨applies, fun disjoint => meets (disjoint_iff.mp disjoint)⟩
    have left : R \ g ≠ ⊥ := fun bot => open_ (sdiff_eq_bot_iff.mp bot)
    simp only [run, if_neg clear, Rule.grants, sup_bot_eq, if_neg left]
  | skip =>
    have left : R \ g ≠ ⊥ := fun bot => open_ (sdiff_eq_bot_iff.mp bot)
    simp only [run, Rule.grants, sup_bot_eq, if_neg left]

theorem run_allow_iff (R : β) : ∀ (rules : List (Rule β)) (g : β), ¬R ≤ g →
    (run R (R \ g) rules = .allow ↔ ∃ n, R ≤ g ⊔ granted (rules.take n) ∧ ¬DeniedIn R (rules.take n))
  | [], g, open_ => by
    simp only [run, List.take_nil, granted_nil, sup_bot_eq, reduceCtorEq, false_iff, not_exists, not_and]
    exact fun _ covered => absurd covered open_
  | r :: rest, g, open_ => by
    -- the empty prefix never covers `R`
    have empty : ∀ n, R ≤ g ⊔ granted ((r :: rest).take n) → ∃ m, n = m + 1 := fun n covered => by
      cases n with
      | zero => exact absurd (by simpa using covered) open_
      | succ m => exact ⟨m, rfl⟩
    by_cases denies : r.Denies R
    · rw [run_cons_of_denies denies]
      refine ⟨fun same => (by cases same), fun ⟨n, covered, clear⟩ => ?_⟩
      obtain ⟨m, rfl⟩ := empty n covered
      exact absurd (by rw [List.take_succ_cons, deniedIn_cons]; exact Or.inl denies) clear
    rw [run_cons_of_not_denies open_ denies]
    split
    · rename_i done
      refine ⟨fun _ => ⟨1, ?_, ?_⟩, fun _ => rfl⟩
      · rw [granted_take_succ, List.take_zero, granted_nil, sup_bot_eq]
        exact sdiff_eq_bot_iff.mp done
      · rw [List.take_succ_cons, deniedIn_cons]
        exact fun | .inl d => denies d | .inr ⟨_, mem, _⟩ => by simp at mem
    · rename_i short
      rw [run_allow_iff R rest (g ⊔ r.grants) fun covered => short (sdiff_eq_bot_iff.mpr covered)]
      constructor
      · rintro ⟨n, covered, clear⟩
        refine ⟨n + 1, by rw [granted_take_succ]; exact covered, ?_⟩
        rw [List.take_succ_cons, deniedIn_cons]
        exact fun | .inl d => denies d | .inr d => clear d
      · rintro ⟨n, covered, clear⟩
        obtain ⟨m, rfl⟩ := empty n covered
        rw [granted_take_succ] at covered
        rw [List.take_succ_cons, deniedIn_cons] at clear
        exact ⟨m, covered, fun d => clear (Or.inr d)⟩

theorem run_deny_iff (R : β) : ∀ (rules : List (Rule β)) (g : β), ¬R ≤ g →
    (run R (R \ g) rules = .deny ↔
      ∃ n r, rules[n]? = some r ∧ r.Denies R ∧ ¬R ≤ g ⊔ granted (rules.take n))
  | [], g, _ => by simp [run]
  | r :: rest, g, open_ => by
    by_cases denies : r.Denies R
    · rw [run_cons_of_denies denies]
      exact ⟨fun _ => ⟨0, r, rfl, denies, by simpa using open_⟩, fun _ => rfl⟩
    rw [run_cons_of_not_denies open_ denies]
    -- a deny past the first entry, with the first entry's grants counted
    have past : (∃ n r', (r :: rest)[n]? = some r' ∧ r'.Denies R ∧ ¬R ≤ g ⊔ granted ((r :: rest).take n)) ↔
        ∃ n r', rest[n]? = some r' ∧ r'.Denies R ∧ ¬R ≤ g ⊔ r.grants ⊔ granted (rest.take n) := by
      constructor
      · rintro ⟨_ | n, r', found, d, uncovered⟩
        · obtain rfl : r = r' := by simpa using found
          exact absurd d denies
        · rw [granted_take_succ] at uncovered
          exact ⟨n, r', by simpa using found, d, uncovered⟩
      · rintro ⟨n, r', found, d, uncovered⟩
        exact ⟨n + 1, r', by simpa using found, d, by rw [granted_take_succ]; exact uncovered⟩
    rw [past]
    split
    · rename_i done
      simp only [reduceCtorEq, false_iff, not_exists, not_and]
      exact fun n _ _ _ uncovered => uncovered (le_sup_of_le_left (sdiff_eq_bot_iff.mp done))
    · rename_i short
      exact run_deny_iff R rest (g ⊔ r.grants) fun covered => short (sdiff_eq_bot_iff.mpr covered)

/-- The evaluation allows exactly when some prefix grants all of the request
with no applicable deny in it that meets the request. -/
theorem evaluate_eq_allow_iff (R : β) (rules : List (Rule β)) : evaluate R rules = .allow ↔ Allows R rules := by
  unfold evaluate
  split
  · rename_i empty
    subst empty
    exact ⟨fun _ => ⟨0, bot_le, fun ⟨_, mem, _⟩ => by simp at mem⟩, fun _ => rfl⟩
  · rename_i some
    have start : run R R rules = run R (R \ ⊥) rules := by rw [sdiff_bot]
    rw [start, run_allow_iff R rules ⊥ (by rwa [le_bot_iff])]
    simp only [bot_sup_eq, Allows]

/-- The evaluation denies exactly when an applicable deny that meets the
request comes before the grants cover it. -/
theorem evaluate_eq_deny_iff (R : β) (rules : List (Rule β)) : evaluate R rules = .deny ↔ Denies R rules := by
  unfold evaluate
  split
  · rename_i empty
    subst empty
    simp only [reduceCtorEq, false_iff]
    rintro ⟨n, r, _, denies, _⟩
    cases r with
    | deny applies s => exact denies.2 disjoint_bot_left
    | grant => exact denies
    | skip => exact denies
  · rename_i some
    have start : run R R rules = run R (R \ ⊥) rules := by rw [sdiff_bot]
    rw [start, run_deny_iff R rules ⊥ (by rwa [le_bot_iff])]
    simp only [bot_sup_eq, Denies]

theorem evaluate_eq_defer_iff (R : β) (rules : List (Rule β)) :
    evaluate R rules = .defer ↔ ¬Allows R rules ∧ ¬Denies R rules := by
  rw [← evaluate_eq_allow_iff, ← evaluate_eq_deny_iff]
  cases evaluate R rules <;> simp

end Run

section Mono

variable {R R' : β} {rules rules' : List (Rule β)}

/-- Asking for less keeps an allow. -/
theorem Allows.mono (le : R' ≤ R) (allows : Allows R rules) : Allows R' rules := by
  obtain ⟨n, covered, clear⟩ := allows
  exact ⟨n, le.trans covered, fun ⟨r, mem, denies⟩ => clear ⟨r, mem, denies.mono le⟩⟩

/-- Asking for more keeps a deny. -/
theorem Denies.mono (le : R' ≤ R) (denies : Denies R' rules) : Denies R rules := by
  obtain ⟨n, r, found, d, uncovered⟩ := denies
  exact ⟨n, r, found, d.mono le, fun covered => uncovered (le.trans covered)⟩

theorem granted_le_of_weaker (weaker : List.Forall₂ Rule.Weaker rules' rules) :
    granted rules' ≤ granted rules := by
  induction weaker with
  | nil => exact le_rfl
  | cons head _ ih => exact sup_le_sup head.grants_le ih

theorem deniedIn_of_weaker (weaker : List.Forall₂ Rule.Weaker rules' rules) (denied : DeniedIn R rules) :
    DeniedIn R rules' := by
  induction weaker with
  | nil => exact denied
  | cons head _ ih =>
    rcases deniedIn_cons.mp denied with here | later
    · exact deniedIn_cons.mpr (Or.inl (head.denies here))
    · exact deniedIn_cons.mpr (Or.inr (ih later))

omit [BooleanAlgebra β] in
theorem getElem?_of_weaker (weaker : List.Forall₂ Rule.Weaker rules' rules) :
    ∀ {n : Nat} {r : Rule β}, rules[n]? = some r → ∃ r', rules'[n]? = some r' ∧ r'.Weaker r := by
  induction weaker with
  | nil => intro n r found; simp at found
  | cons head _ ih =>
    intro n r found
    cases n with
    | zero => exact ⟨_, rfl, by simpa using (show _ = r by simpa using found) ▸ head⟩
    | succ n => simpa using ih (by simpa using found)

/-- Weaker entries keep a deny. -/
theorem Denies.of_weaker (weaker : List.Forall₂ Rule.Weaker rules' rules) (denies : Denies R rules) :
    Denies R rules' := by
  obtain ⟨n, r, found, d, uncovered⟩ := denies
  obtain ⟨r', found', stronger⟩ := getElem?_of_weaker weaker found
  exact ⟨n, r', found', stronger.denies d,
    fun covered => uncovered (covered.trans (granted_le_of_weaker (List.forall₂_take n weaker)))⟩

/-- An allow by weaker entries is an allow by the entries. -/
theorem Allows.of_weaker (weaker : List.Forall₂ Rule.Weaker rules' rules) (allows : Allows R rules') :
    Allows R rules := by
  obtain ⟨n, covered, clear⟩ := allows
  exact ⟨n, covered.trans (granted_le_of_weaker (List.forall₂_take n weaker)),
    fun denied => clear (deniedIn_of_weaker (List.forall₂_take n weaker) denied)⟩

end Mono

end FirstMatch

end Xnu
