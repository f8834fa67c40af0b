import Glass2Glass.Lib.SortedMap
import Mathlib.Data.List.Chain

/-!
# When lost packets are asked for

`NackScheduler` (`g2g-plugins/src/rist.rs`): each call gets the packets that are missing, and answers with those to
ask for again. Where a packet is listed once in every call of a stretch, the calls that ask for it are those of its
own schedule (`requests_scheduled`).
-/

namespace Glass2Glass.Rist

open List

structure PendingLoss where
  nextRequestNs : Nat
  requestsSent : Nat

/-- The requests of the losses that a receiver knows of. -/
structure NackScheduler where
  reorderNs : Nat
  retryIntervalNs : Nat
  maxRequests : Nat
  pending : SortedMap Nat PendingLoss

/-- The packets that are missing, in one call. -/
structure Holes where
  missing : List Nat
  nowNs : Nat
  limit : Nat

/-- Where the loop of a call is. -/
structure Round where
  requests : List Nat
  pending : SortedMap Nat PendingLoss
  stillMissing : SortedMap Nat PendingLoss

/-- A time later, at most the highest word. -/
def laterNs (now ns : Nat) : Nat := min (now + ns) (2 ^ 64 - 1)

namespace NackScheduler

def new (reorderNs bufferNs maxRequests : Nat) : NackScheduler where
  reorderNs := reorderNs
  retryIntervalNs := (bufferNs - reorderNs) / max maxRequests 1
  maxRequests := maxRequests
  pending := .empty

def lossOf (s : NackScheduler) (now : Nat) (pending : SortedMap Nat PendingLoss) (sequence : Nat) : PendingLoss :=
  (pending.get? sequence).getD { nextRequestNs := laterNs now s.reorderNs, requestsSent := 0 }

/-- One pass of the loop. -/
def check (s : NackScheduler) (now limit : Nat) (r : Round) (sequence : Nat) : Round :=
  let loss := s.lossOf now r.pending sequence
  let pending := r.pending.erase sequence
  let canRequest := loss.requestsSent < s.maxRequests ∧ r.requests.length < limit
  if canRequest ∧ loss.nextRequestNs ≤ now then
    let asked := { nextRequestNs := laterNs now s.retryIntervalNs, requestsSent := loss.requestsSent + 1 }
    { requests := r.requests ++ [sequence], pending, stillMissing := r.stillMissing.insert sequence asked }
  else { r with pending, stillMissing := r.stillMissing.insert sequence loss }

def start (s : NackScheduler) : Round := { requests := [], pending := s.pending, stillMissing := .empty }

def due (s : NackScheduler) (holes : Holes) : List Nat × NackScheduler :=
  let r := holes.missing.foldl (s.check holes.nowNs holes.limit) s.start
  (r.requests, { s with pending := r.stillMissing })

/-! ## Runs -/

def after (s : NackScheduler) (calls : List Holes) : NackScheduler := calls.foldl (fun s c => (s.due c).2) s

/-- The times of the calls that ask for a packet. -/
def requestTimes (q : Nat) : NackScheduler → List Holes → List Nat
  | _, [] => []
  | s, c :: calls =>
    if q ∈ (s.due c).1 then c.nowNs :: requestTimes q (s.due c).2 calls else requestTimes q (s.due c).2 calls

/-- No call has to leave a packet out because of its limit. -/
def Unlimited : NackScheduler → List Holes → Prop
  | _, [] => True
  | s, c :: calls => (s.due c).1 = (s.due { c with limit := c.missing.length }).1 ∧ Unlimited (s.due c).2 calls

end NackScheduler

/-- The first of some times that is not before `next`, and each next one after the interval, `n` in all. -/
def dueTimes (retryIntervalNs : Nat) : Nat → Nat → List Nat → List Nat
  | 0, _, _ => []
  | n + 1, next, times =>
    match times.dropWhile (· < next) with
    | [] => []
    | now :: later => now :: dueTimes retryIntervalNs n (laterNs now retryIntervalNs) later

/-- At most `n` times, from `next` on and with the interval between two of them. -/
structure Spaced (retryIntervalNs n next : Nat) (times : List Nat) : Prop where
  bounded : times.length ≤ n
  first : ∀ t ∈ times.head?, next ≤ t
  apart : times.IsChain fun t t' => laterNs t retryIntervalNs ≤ t'

namespace NackScheduler

variable {s : NackScheduler} {now limit q sequence : Nat} {r : Round} {missing : List Nat} {c : Holes}
  {calls : List Holes}

/-! ## One call -/

theorem check_requests (s : NackScheduler) (now limit : Nat) (r : Round) (sequence : Nat) :
    (s.check now limit r sequence).requests = r.requests ∨
      (s.check now limit r sequence).requests = r.requests ++ [sequence] ∧ r.requests.length < limit := by
  unfold check
  dsimp only
  split_ifs with h
  · exact .inr ⟨rfl, h.1.2⟩
  · exact .inl rfl

theorem foldl_requests (s : NackScheduler) (now : Nat) (missing : List Nat) (hlimit : r.requests.length ≤ limit) :
    ∃ asked, (missing.foldl (s.check now limit) r).requests = r.requests ++ asked ∧ asked.Sublist missing ∧
      (r.requests ++ asked).length ≤ limit := by
  induction missing generalizing r with
  | nil => exact ⟨[], (append_nil _).symm, .slnil, by rwa [append_nil]⟩
  | cons sequence missing ih =>
    rcases s.check_requests now limit r sequence with hskip | ⟨hask, hroom⟩
    · obtain ⟨asked, heq, hsub, hle⟩ := ih (hskip.symm ▸ hlimit)
      rw [hskip] at heq hle
      exact ⟨asked, heq, hsub.cons _, hle⟩
    · obtain ⟨asked, heq, hsub, hle⟩ := ih (by rw [hask, length_append]; exact hroom)
      rw [hask, append_assoc] at heq hle
      exact ⟨sequence :: asked, heq, hsub.cons_cons _, hle⟩

theorem due_requests (s : NackScheduler) (c : Holes) :
    (s.due c).1.Sublist c.missing ∧ (s.due c).1.length ≤ c.limit := by
  obtain ⟨asked, heq, hsub, hle⟩ := s.foldl_requests c.nowNs c.missing (r := s.start) (Nat.zero_le c.limit)
  obtain rfl : (s.due c).1 = asked := heq
  exact ⟨hsub, hle⟩

theorem foldl_check_other (s : NackScheduler) (now limit : Nat) (r : Round) (hq : q ∉ missing) :
    (missing.foldl (s.check now limit) r).pending.get? q = r.pending.get? q ∧
      (missing.foldl (s.check now limit) r).stillMissing.get? q = r.stillMissing.get? q ∧
      (q ∈ (missing.foldl (s.check now limit) r).requests ↔ q ∈ r.requests) := by
  induction missing generalizing r with
  | nil => exact ⟨rfl, rfl, .rfl⟩
  | cons sequence missing ih =>
    obtain ⟨hne, hrest⟩ := not_or.1 (mt mem_cons.2 hq)
    obtain ⟨hpending, hstill, hasked⟩ := ih (s.check now limit r sequence) hrest
    have hpass : (s.check now limit r sequence).pending.get? q = r.pending.get? q ∧
        (s.check now limit r sequence).stillMissing.get? q = r.stillMissing.get? q ∧
        (q ∈ (s.check now limit r sequence).requests ↔ q ∈ r.requests) := by
      unfold check
      dsimp only
      split_ifs <;> simp [SortedMap.get?_insert, SortedMap.get?_erase, hne]
    exact ⟨hpending.trans hpass.1, hstill.trans hpass.2.1, hasked.trans hpass.2.2⟩

theorem due_other (s : NackScheduler) (hq : q ∉ c.missing) : (s.due c).2.pending.get? q = none :=
  (s.foldl_check_other c.nowNs c.limit s.start hq).2.1

/-- A packet that is listed once is asked for when it is due, as far as the limit lets it, and at no other time. -/
theorem due_listed (s : NackScheduler) (hq : c.missing.count q = 1) {loss : PendingLoss}
    (hloss : s.lossOf c.nowNs s.pending q = loss) :
    (q ∈ (s.due c).1 ∧ (loss.requestsSent < s.maxRequests ∧ loss.nextRequestNs ≤ c.nowNs) ∧
      (s.due c).2.pending.get? q = some ⟨laterNs c.nowNs s.retryIntervalNs, loss.requestsSent + 1⟩) ∨
    (q ∉ (s.due c).1 ∧
      (c.missing.length ≤ c.limit → ¬ (loss.requestsSent < s.maxRequests ∧ loss.nextRequestNs ≤ c.nowNs)) ∧
      (s.due c).2.pending.get? q = some loss) := by
  obtain ⟨before, rest, hmissing, hbefore⟩ := eq_append_cons_of_mem (count_pos_iff.1 (hq ▸ Nat.one_pos))
  have hrest : q ∉ rest := by
    rw [hmissing, count_append, count_cons_self, count_eq_zero.2 hbefore] at hq
    exact count_eq_zero.1 (by omega)
  obtain ⟨hpending, -, hasked⟩ := s.foldl_check_other c.nowNs c.limit s.start hbefore
  obtain ⟨asked, heq, hsub, -⟩ := s.foldl_requests c.nowNs before (r := s.start) (Nat.zero_le c.limit)
  have hroom : c.missing.length ≤ c.limit →
      (before.foldl (s.check c.nowNs c.limit) s.start).requests.length < c.limit := by
    intro hle
    rw [hmissing, length_append, length_cons] at hle
    rw [heq]
    exact (hsub.length_le.trans_lt (Nat.lt_add_of_pos_right (Nat.succ_pos _))).trans_le hle
  have hnone : q ∉ (before.foldl (s.check c.nowNs c.limit) s.start).requests := fun h => not_mem_nil (hasked.1 h)
  unfold due
  simp only [hmissing, foldl_append, foldl_cons]
  generalize before.foldl (s.check c.nowNs c.limit) s.start = r at *
  obtain ⟨-, hstill, hmem⟩ := s.foldl_check_other c.nowNs c.limit (s.check c.nowNs c.limit r q) hrest
  rw [hstill, hmem, ← hmissing]
  rw [lossOf, ← show r.pending.get? q = s.pending.get? q from hpending, ← lossOf] at hloss
  unfold check
  dsimp only
  rw [hloss]
  split_ifs with h
  · exact .inl ⟨mem_append_right _ mem_cons_self, ⟨h.1.1, h.2⟩, by rw [SortedMap.get?_insert, if_pos rfl]⟩
  · exact .inr ⟨hnone, fun hle hdue => h ⟨⟨hdue.1, hroom hle⟩, hdue.2⟩, by rw [SortedMap.get?_insert, if_pos rfl]⟩

/-! ## A stretch of calls -/

theorem after_keeps (s : NackScheduler) (calls : List Holes) : (s.after calls).maxRequests = s.maxRequests ∧
    (s.after calls).reorderNs = s.reorderNs ∧ (s.after calls).retryIntervalNs = s.retryIntervalNs := by
  induction calls generalizing s with
  | nil => exact ⟨rfl, rfl, rfl⟩
  | cons c calls ih => exact ih (s.due c).2

theorem lossOf_of_get? {pending : SortedMap Nat PendingLoss} {loss : PendingLoss} (h : pending.get? q = some loss) :
    s.lossOf now pending q = loss := by
  rw [lossOf, h, Option.getD_some]

theorem spaced_requestTimes {next sent : Nat} (hlisted : ∀ c ∈ calls, c.missing.count q = 1)
    (hloss : ∀ c ∈ calls.head?, s.lossOf c.nowNs s.pending q = ⟨next, sent⟩) :
    Spaced s.retryIntervalNs (s.maxRequests - sent) next (requestTimes q s calls) := by
  induction calls generalizing s next sent with
  | nil => exact ⟨Nat.zero_le _, nofun, .nil⟩
  | cons c calls ih =>
    obtain ⟨hc, hrest⟩ := forall_mem_cons.1 hlisted
    unfold requestTimes
    rcases s.due_listed hc (hloss c rfl) with ⟨hmem, ⟨hsent, hnow⟩, hget⟩ | ⟨hmem, -, hget⟩
    · obtain ⟨hbounded, hfirst, hapart⟩ := ih hrest fun _ _ => lossOf_of_get? hget
      rw [if_pos hmem]
      refine ⟨?_, ?_, hapart.cons hfirst⟩
      · have hle : (requestTimes q (s.due c).2 calls).length ≤ s.maxRequests - (sent + 1) := hbounded
        dsimp only at hsent
        rw [length_cons]
        omega
      · rintro t ⟨⟩
        exact hnow
    · rw [if_neg hmem]
      exact ih hrest fun _ _ => lossOf_of_get? hget

theorem requestTimes_eq {next sent : Nat} (hlisted : ∀ c ∈ calls, c.missing.count q = 1) (hunlimited : Unlimited s calls)
    (hloss : ∀ c ∈ calls.head?, s.lossOf c.nowNs s.pending q = ⟨next, sent⟩) :
    requestTimes q s calls = dueTimes s.retryIntervalNs (s.maxRequests - sent) next (calls.map Holes.nowNs) := by
  induction calls generalizing s next sent with
  | nil => cases s.maxRequests - sent <;> rfl
  | cons c calls ih =>
    obtain ⟨hc, hrest⟩ := forall_mem_cons.1 hlisted
    obtain ⟨hsame, hunlimited⟩ := hunlimited
    rw [requestTimes, map_cons]
    rcases s.due_listed hc (hloss c rfl) with ⟨hmem, ⟨hsent, hnow⟩, hget⟩ | ⟨hmem, -, hget⟩
    · rw [if_pos hmem, ih hrest hunlimited fun _ _ => lossOf_of_get? hget]
      dsimp only at hsent hnow
      obtain ⟨n, hn⟩ := Nat.exists_eq_add_of_lt hsent
      have hleft : s.maxRequests - sent = n + 1 := by omega
      have hleft' : s.maxRequests - (sent + 1) = n := by omega
      rw [hleft, dueTimes, dropWhile_cons_of_neg (by simpa using hnow)]
      exact congrArg (c.nowNs :: dueTimes _ · _ _) hleft'
    · rw [if_neg hmem, ih hrest hunlimited fun _ _ => lossOf_of_get? hget]
      have hnot : ¬ (sent < s.maxRequests ∧ next ≤ c.nowNs) := by
        rcases s.due_listed (c := { c with limit := c.missing.length }) hc (hloss c rfl) with ⟨hmem', -⟩ | ⟨-, hdue, -⟩
        · exact absurd (hsame ▸ hmem') hmem
        · exact hdue le_rfl
      change dueTimes s.retryIntervalNs (s.maxRequests - sent) _ _ = _
      rcases hleft : s.maxRequests - sent with _ | n
      · rfl
      · rw [dueTimes, dueTimes, dropWhile_cons_of_pos]
        simp only [decide_eq_true_eq]
        omega

end NackScheduler

open NackScheduler

/-- A call asks for packets of its list, within its limit. A packet that is listed once in every call of a stretch,
and not in the call before, is asked for on its own schedule, which no call misses unless for its limit. -/
theorem requests_scheduled (reorderNs bufferNs maxRequests : Nat) (history : List Holes) :
    (∀ c, (∀ q ∈ ((after (.new reorderNs bufferNs maxRequests) history).due c).1, q ∈ c.missing) ∧
      ((after (.new reorderNs bufferNs maxRequests) history).due c).1.length ≤ c.limit ∧
      (c.missing.Nodup → ((after (.new reorderNs bufferNs maxRequests) history).due c).1.Nodup)) ∧
    ∀ q, (∀ c ∈ history.getLast?, q ∉ c.missing) → ∀ first later, (∀ c ∈ first :: later, c.missing.count q = 1) →
      Spaced ((bufferNs - reorderNs) / max maxRequests 1) maxRequests (laterNs first.nowNs reorderNs)
        (requestTimes q (after (.new reorderNs bufferNs maxRequests) history) (first :: later)) ∧
      (Unlimited (after (.new reorderNs bufferNs maxRequests) history) (first :: later) →
        requestTimes q (after (.new reorderNs bufferNs maxRequests) history) (first :: later) =
          dueTimes ((bufferNs - reorderNs) / max maxRequests 1) maxRequests (laterNs first.nowNs reorderNs)
            ((first :: later).map Holes.nowNs)) := by
  refine ⟨fun c => ?_, fun q hfresh first later hlisted => ?_⟩
  · obtain ⟨hsub, hle⟩ := (after (.new reorderNs bufferNs maxRequests) history).due_requests c
    exact ⟨fun q hq => hsub.subset hq, hle, hsub.nodup⟩
  obtain ⟨hmax, hreorder, hretry⟩ := after_keeps (.new reorderNs bufferNs maxRequests) history
  have hnone : (after (.new reorderNs bufferNs maxRequests) history).pending.get? q = none := by
    induction history using List.reverseRecOn with
    | nil => rfl
    | append_singleton history c ih =>
      rw [NackScheduler.after, foldl_append]
      exact due_other _ (hfresh c getLast?_concat)
  generalize after (.new reorderNs bufferNs maxRequests) history = s at *
  change s.retryIntervalNs = (bufferNs - reorderNs) / max maxRequests 1 at hretry
  rw [← hretry]
  subst hmax hreorder
  have hloss : ∀ c ∈ (first :: later).head?, s.lossOf c.nowNs s.pending q = ⟨laterNs first.nowNs s.reorderNs, 0⟩ := by
    rintro c ⟨⟩
    rw [lossOf, hnone, Option.getD_none]
  exact ⟨spaced_requestTimes hlisted hloss, fun hunlimited => requestTimes_eq hlisted hunlimited hloss⟩

/-- One packet is lost and asked for twice, 30 ns apart. -/
theorem requests_scheduled_twice :
    requestTimes 5 (.new 10 70 2) [⟨[5], 0, 8⟩, ⟨[4, 5], 10, 8⟩, ⟨[5], 39, 8⟩, ⟨[5], 40, 8⟩, ⟨[5], 90, 8⟩] = [10, 40] :=
  ((requests_scheduled 10 70 2 []).2 5 (by simp) ⟨[5], 0, 8⟩ [⟨[4, 5], 10, 8⟩, ⟨[5], 39, 8⟩, ⟨[5], 40, 8⟩, ⟨[5], 90, 8⟩]
    (by decide)).2 (by simp only [Unlimited, and_true]; decide)

/-- A packet that is listed twice is asked for twice at once. -/
theorem listed_twice : ¬ ((NackScheduler.new 0 10 1).due ⟨[5, 5], 0, 8⟩).1.count 5 ≤ (NackScheduler.new 0 10 1).maxRequests := by
  decide

end Glass2Glass.Rist
