import Bazaar.Changeset.Reader

/-!
# The reader's loops end

Every loop of `ChangesetReader` takes a line of the file in each round but its last,
and the helpers it calls never give one back.  So a loop given one more round than
there are unread lines never runs out: `outOfFuel` is never the model's answer, and
`read_changeset` ends on every file.

`Within n rest x` says that `x` is not `outOfFuel` and, on success, leaves at most
`n` lines unread; each function of the reader gets one such lemma, and the loops get
theirs by induction on the fuel.
-/

namespace Bazaar
namespace Changeset

open Python

/-- The result `x` is not `outOfFuel` and, on success, leaves at most `n` lines unread,
as `rest` counts them. -/
def Within {α : Type} (n : Nat) (rest : α → Nat) : Except ReadError α → Prop
  | .ok a => rest a ≤ n
  | .error e => e ≠ .outOfFuel

section Within

variable {α β : Type} {n m : Nat} {g : α → Nat} {g' : β → Nat} {x : Except ReadError α}

@[simp] theorem within_ok (a : α) : Within n g (.ok a) ↔ g a ≤ n := Iff.rfl

@[simp] theorem within_error (e : ReadError) : Within n g (.error e) ↔ e ≠ .outOfFuel :=
  Iff.rfl

theorem Within.mono (h : Within m g x) (hmn : m ≤ n) : Within n g x := by
  cases x with
  | error e => exact h
  | ok a => exact Nat.le_trans h hmn

theorem Within.bind {f : α → Except ReadError β} (hx : Within n g x)
    (hf : ∀ a, g a ≤ n → Within n g' (f a)) : Within n g' (x >>= f) := by
  cases x with
  | error e => exact hx
  | ok a => exact hf a hx

theorem Within.ite {c : Prop} [Decidable c] {a b : Except ReadError α}
    (ha : c → Within n g a) (hb : ¬c → Within n g b) : Within n g (if c then a else b) := by
  by_cases h : c
  · rw [if_pos h]; exact ha h
  · rw [if_neg h]; exact hb h

/-- A step that reads no line and never runs out. -/
theorem Within.of_ne (h : x ≠ .error .outOfFuel) : Within n (fun _ => n) x := by
  cases x with
  | error e => exact fun he => h (he ▸ rfl)
  | ok a => exact Nat.le_refl n

theorem Within.ne_outOfFuel (h : Within n g x) : x ≠ .error .outOfFuel := by
  cases x with
  | error e => exact fun he => h (Except.error.inj he)
  | ok a => exact nofun

end Within

/-!
# The stream
-/

theorem pull_rest_le : ∀ (rest : List Line) (nextLine : Option Line),
    (pull rest nextLine).2.1.length ≤ rest.length
  | [], _ => Nat.le_refl 0
  | _ :: rest, none => Nat.le_succ_of_le (pull_rest_le rest _)
  | _ :: _, some _ => Nat.le_succ _

theorem pull_rest_lt {line : Line} : ∀ {rest : List Line} {nextLine : Option Line},
    (pull rest nextLine).1 = some line → (pull rest nextLine).2.1.length < rest.length
  | [], _, h => nomatch h
  | x :: rest, none, h => Nat.lt_succ_of_lt (@pull_rest_lt line rest (some x) h)
  | _ :: _, some _, _ => Nat.lt_succ_self _

theorem Reader.next_rest_le {r r' : Reader} {o : Option Line} (h : r.next = (o, r')) :
    r'.rest.length ≤ r.rest.length := by
  simp only [Reader.next, Prod.mk.injEq] at h
  exact h.2 ▸ pull_rest_le r.rest r.nextLine

theorem Reader.next_rest_lt {r r' : Reader} {line : Line} (h : r.next = (some line, r')) :
    r'.rest.length < r.rest.length := by
  simp only [Reader.next, Prod.mk.injEq] at h
  exact h.2 ▸ pull_rest_lt h.1

theorem peekStarts_ne (r : Reader) (p : Bytes) : r.peekStarts p ≠ .error .outOfFuel := by
  unfold Reader.peekStarts; split <;> simp

/-!
# Entries
-/

theorem manyLoop_rest_le (start : Bytes) : ∀ (values : List Bytes) (rest : List Line) (last : Line),
    (manyLoop start values rest last).2.1.length ≤ rest.length
  | _, [], _ => Nat.le_refl 0
  | values, line :: rest, last => by
    unfold manyLoop
    split
    · exact Nat.le_succ_of_le (manyLoop_rest_le start _ rest line)
    · exact Nat.le_succ _

theorem readMany_within (indent : Nat) (r : Reader) :
    Within r.rest.length (fun p => p.2.rest.length) (readMany indent r) := by
  rcases r with ⟨rest, _ | nextLine, info⟩
  · simp [readMany]
  · simp only [readMany]
    split
    · simp
    · exact manyLoop_rest_le _ _ _ _

theorem readNextEntry_within (line : Line) (indent : Nat) (r : Reader) :
    Within r.rest.length (fun p => p.2.rest.length) (readNextEntry line indent r) := by
  unfold readNextEntry
  -- the `#` check and the blank line, then a value after `: `, a list after `:`, or no colon
  refine Within.ite (fun _ => nofun) fun _ => Within.ite (fun _ => Nat.le_refl _) fun _ => ?_
  exact Within.ite (fun _ => Within.ite (fun _ => Within.bind (readMany_within _ r) fun _ h => h)
    fun _ => Nat.le_refl _) fun _ => Within.ite (fun _ => Within.bind (readMany_within _ r) fun _ h => h)
      fun _ => nofun

theorem setOnce_ne {α : Type} (slot : Slot α) (key : Bytes) (value : Value) :
    setOnce slot key value ≠ .error .outOfFuel := by
  unfold setOnce; split <;> simp

/-- `_read_revision`'s loop, given a round more than there are unread lines. -/
theorem revisionLoop_within : ∀ (fuel : Nat) (revInfo : RevisionInfo) (r : Reader),
    r.rest.length < fuel →
      Within r.rest.length (fun p => p.2.rest.length) (revisionLoop revInfo fuel r)
  | 0, _, _, h => absurd h (Nat.not_lt_zero _)
  | fuel + 1, revInfo, r, hfuel => by
    rw [revisionLoop]
    rcases hn : r.next with ⟨_ | line, r'⟩
    · exact Reader.next_rest_le hn
    · have hlt := Reader.next_rest_lt hn
      refine (Within.bind (readNextEntry_within line 4 r') fun ⟨entry, r''⟩ h => ?_).mono hlt.le
      rcases entry with _ | ⟨key, value⟩
      · simp
      · refine Within.bind (Within.of_ne (setOnce_ne _ _ _)) fun revInfo _ =>
          Within.bind (Within.of_ne (peekStarts_ne _ _)) fun more _ => ?_
        cases more
        · exact h
        · exact (revisionLoop_within fuel revInfo r'' (by dsimp only at h; omega)).mono h

theorem readRevision_within (revId : Value) (r : Reader) :
    Within r.rest.length (fun r => r.rest.length) (readRevision revId r) :=
  Within.bind (revisionLoop_within _ _ r (Nat.lt_succ_self _)) fun _ h => h

theorem handleNext_within (line : Line) (r : Reader) :
    Within r.rest.length (fun r => r.rest.length) (handleNext line r) := by
  refine Within.bind (readNextEntry_within line 1 r) fun ⟨entry, r'⟩ h => ?_
  rcases entry with _ | ⟨key, value⟩
  · exact h
  · dsimp only
    split
    · exact (readRevision_within value r').mono h
    · exact Within.bind (Within.of_ne (setOnce_ne _ _ _)) fun _ _ => h

/-!
# The header, the patches and the footer
-/

theorem headerStep_ne (headerStr : Bytes) (found : Bool) (header : List Bytes) (line : Line) :
    headerStep headerStr found header line ≠ .error .outOfFuel := by
  unfold headerStep
  repeat' split
  all_goals nofun

theorem headerLoop_within (headerStr : Bytes) : ∀ (found : Bool) (header : List Bytes)
    (rest : List Line) (nextLine : Option Line),
    Within rest.length (fun p => p.1.length) (headerLoop headerStr found header rest nextLine)
  | _, _, [], _ => by simp [headerLoop]
  | found, header, _ :: rest, none => (headerLoop_within headerStr found header rest _).mono (Nat.le_succ _)
  | found, header, line :: rest, some last => by
    rw [headerLoop]
    split
    · next e he => exact fun h => headerStep_ne headerStr found header last (h ▸ he)
    · exact Nat.le_succ _
    · exact (headerLoop_within headerStr _ _ rest _).mono (Nat.le_succ _)

/-- The loops of `_read_header` and `_read_footer` over entries. -/
theorem entriesLoop_within (stop : Line) : ∀ (fuel : Nat) (r : Reader), r.rest.length < fuel →
    Within r.rest.length (fun r => r.rest.length) (entriesLoop stop fuel r)
  | 0, _, h => absurd h (Nat.not_lt_zero _)
  | fuel + 1, r, hfuel => by
    rw [entriesLoop]
    rcases hn : r.next with ⟨_ | line, r'⟩
    · exact Reader.next_rest_le hn
    · have hlt := Reader.next_rest_lt hn
      exact Within.ite (fun _ => hlt.le) fun _ => (Within.bind (handleNext_within line r') fun r'' h =>
        (entriesLoop_within stop fuel r'' (by omega)).mono h).mono hlt.le

theorem readHeader_within (header : List Bytes) (headerStr : Bytes) (r : Reader) :
    Within r.rest.length (fun r => r.rest.length) (readHeader header headerStr r) :=
  Within.bind (headerLoop_within headerStr false header r.rest r.nextLine) fun _ h =>
    (entriesLoop_within _ _ _ (Nat.lt_succ_self _)).mono h

theorem patchLoop_rest_le : ∀ (lines rest : List Line) (last : Line),
    (patchLoop lines rest last).2.2.1.length ≤ rest.length
  | _, [], _ => Nat.le_refl 0
  | lines, line :: rest, last => by
    unfold patchLoop
    split
    · exact Nat.le_succ _
    · split
      · exact Nat.le_succ _
      · exact Nat.le_succ_of_le (patchLoop_rest_le _ rest line)

/-- `_read_one_patch` takes a line whenever another patch follows. -/
theorem readOnePatch_within (r : Reader) :
    Within r.rest.length (fun p => p.2.rest.length + if p.1.2.2 then 1 else 0) (readOnePatch r) := by
  unfold readOnePatch
  refine Within.bind (Within.of_ne (peekStarts_ne r _)) fun hash _ => ?_
  cases hash
  · simp only [Bool.false_eq_true, if_false]
    rcases hn : r.next with ⟨_ | line, ⟨rest, _ | nextLine, info⟩⟩
    · simp
    · simp
    · simp only [pure_bind]; split_ifs <;> simp
    · have hlt : rest.length < r.rest.length := Reader.next_rest_lt hn
      simp only [pure_bind]
      rcases hpl : patchLoop [] rest nextLine with ⟨lines, more, rest', nextLine'⟩
      have hp : rest'.length ≤ rest.length := by simpa [hpl] using patchLoop_rest_le [] rest nextLine
      split_ifs
      · simp
      · cases more <;> simp <;> omega
  · simp

theorem patchesLoop_within : ∀ (fuel : Nat) (r : Reader), r.rest.length < fuel →
    Within r.rest.length (fun r => r.rest.length) (patchesLoop fuel r)
  | 0, _, h => absurd h (Nat.not_lt_zero _)
  | fuel + 1, r, hfuel => by
    rw [patchesLoop]
    refine Within.bind (readOnePatch_within r) fun ⟨⟨action, lines, more⟩, r'⟩ h => ?_
    have round : ∀ r'' : Reader, r''.rest.length = r'.rest.length → Within r.rest.length (fun r => r.rest.length)
        (if more then patchesLoop fuel r'' else pure r'') := by
      intro r'' hr
      cases more
      · simp only [Bool.false_eq_true, if_false, Nat.add_zero] at h ⊢
        simpa [hr] using h
      · simp only [if_true] at h ⊢
        exact (patchesLoop_within fuel r'' (by omega)).mono (by omega)
    cases action <;> exact round _ rfl

theorem readPatches_within (r : Reader) :
    Within r.rest.length (fun r => r.rest.length) (readPatches r) :=
  patchesLoop_within _ r (Nat.lt_succ_self _)

theorem readFooter_within (r : Reader) :
    Within r.rest.length (fun r => r.rest.length) (readFooter r) := by
  unfold readFooter
  rcases hn : r.next with ⟨_ | line, r'⟩
  · simp
  · have hlt := Reader.next_rest_lt hn
    dsimp only
    split
    · simp
    · exact (entriesLoop_within _ _ r' (Nat.lt_succ_self _)).mono hlt.le

theorem completeInfo_ne (info : ChangesetInfo) : info.completeInfo ≠ .error .outOfFuel := by
  unfold ChangesetInfo.completeInfo
  split
  · simp
  · simp
  · split <;> simp

/-- Every loop of the reader ends before its fuel does: `read_changeset` ends on every
file, with a `ChangesetInfo` or an exception of the source. -/
theorem readChangeset_ne_outOfFuel (header : List Bytes) (headerStr : Bytes) (lines : List Line) :
    readChangeset header headerStr lines ≠ .error .outOfFuel := by
  refine Within.ne_outOfFuel (show Within lines.length (fun _ => lines.length) _ from ?_)
  exact Within.bind (readHeader_within header headerStr _) fun r h =>
    Within.bind ((readPatches_within r).mono h) fun r' h' =>
      Within.bind ((readFooter_within r').mono h') fun r'' _ => Within.of_ne (completeInfo_ne r''.info)

end Changeset
end Bazaar
