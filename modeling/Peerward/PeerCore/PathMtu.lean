import Peerward.PeerCore.ConnectivitySteps

/-!
# The path size search

One path of fixed size is searched under one TUN ceiling: a probe of an inner size gets through
exactly when the path is that large, and its outcome may be reported late or again. `Searching`
brackets the path between the known size and the search upper; it is kept by every event, and
`rank` counts what the bracket still allows, so that only full retries and repeated confirmations
can hold the search up.
-/

namespace Peerward.PeerCore

open Std Peerward.Lib

namespace Mtu

/-- The inner size `next` starts a search from. -/
def minimum (ipv6 : Bool) : Nat := if ipv6 then 80 else 64

/-- One call on the search. -/
inductive Event where
  | next (now interval : Nat)
  | sent (now : Nat)
  | confirm (limit now : Nat)
  | failed (now limit : Nat)

/-- A search and the ciphertext sizes of the probes it has handed out. -/
structure Search where
  mtu : Mtu := {}
  probed : List Nat := []

def step (ceiling : Nat) (ipv6 : Bool) (s : Search) : Event → Search
  | .next now interval =>
    { mtu := (s.mtu.next ceiling ipv6 now interval).2
      probed := s.probed ++ ((s.mtu.next ceiling ipv6 now interval).1.map Prod.snd).toList }
  | .sent now => { s with mtu := s.mtu.markSent now }
  | .confirm limit now => { s with mtu := s.mtu.confirm limit now }
  | .failed now limit => { s with mtu := s.mtu.failed now limit }

/-- Outcomes are those of a path of `path` bytes, for sizes that were probed. -/
def Reports (path : Nat) (s : Search) : Event → Prop
  | .confirm limit _ => limit ∈ s.probed ∧ limit ≤ 32 + path
  | .failed _ limit => limit ∈ s.probed ∧ 32 + path < limit
  | _ => True

instance (path : Nat) (s : Search) : ∀ event, Decidable (Reports path s event)
  | .next _ _ | .sent _ => .isTrue trivial
  | .confirm _ _ | .failed _ _ => inferInstanceAs (Decidable (_ ∧ _))

/-- Too soon after the last probe. -/
def waits (mtu : Mtu) (now interval : Nat) : Bool := mtu.sent.any (now - · < interval)

/-- The event is a full retry: the search starts over at the ceiling. -/
def Retries (s : Search) : Event → Prop
  | .next now interval =>
    s.mtu.waits now interval = false ∧ s.mtu.retryFull.any (· ≤ now) = true
  | _ => False

instance (s : Search) : ∀ event, Decidable (Retries s event)
  | .next _ _ => inferInstanceAs (Decidable (_ ∧ _))
  | .sent _ | .confirm _ _ | .failed _ _ => .isFalse id

/-- The search is over: the target is the known size and nothing sixteen bytes larger is left. -/
def Settled (mtu : Mtu) : Prop :=
  ∃ lower upper ceiling, mtu.bounds = some (lower, upper, ceiling) ∧ mtu.target = lower ∧
    upper < lower + 16

/-- The event reports on the current target. -/
def about (s : Search) : Event → Bool
  | .confirm limit _ => limit = 32 + s.mtu.target
  | .failed _ limit => limit = 32 + s.mtu.target
  | _ => false

/-- The event confirms a size other than the current target. -/
def reconfirms (s : Search) : Event → Bool
  | .confirm limit _ => limit ≠ 32 + s.mtu.target
  | _ => false

/-! ## The next target -/

/-- The target `choose_target` picks between two bounds. -/
def chosen (lower upper : Nat) : Nat :=
  if upper < lower + 16 then lower
  else min (max ((lower + upper) / 2 / 16 * 16) (lower + 16)) upper

theorem chosen_narrow {lower upper : Nat} (h : upper < lower + 16) : chosen lower upper = lower :=
  if_pos h

theorem chosen_wide {lower upper : Nat} (h : lower + 16 ≤ upper) :
    lower + 16 ≤ chosen lower upper ∧ chosen lower upper ≤ upper := by
  rw [chosen, if_neg (by omega)]
  omega

section ChooseTarget

variable {mtu : Mtu} {lower upper ceiling now : Nat}

@[simp] theorem chooseTarget_bounds : (mtu.chooseTarget now).bounds = mtu.bounds := by
  unfold chooseTarget
  split
  · rfl
  · split <;> rfl

@[simp] theorem chooseTarget_failures : (mtu.chooseTarget now).failures = mtu.failures := by
  unfold chooseTarget
  split
  · rfl
  · split <;> rfl

theorem chooseTarget_target (h : mtu.bounds = some (lower, upper, ceiling)) (hle : lower ≤ upper) :
    (mtu.chooseTarget now).target = chosen lower upper := by
  unfold chooseTarget chosen
  rw [h]
  simp only [Bool.or_eq_true, decide_eq_true_eq]
  by_cases hnarrow : upper < lower + 16
  · rw [if_pos (by omega), if_pos hnarrow]
  · rw [if_neg (by omega), if_neg hnarrow]

/-- Only a narrow bracket sets a time for the next full retry. -/
theorem chooseTarget_retryFull (h : mtu.bounds = some (lower, upper, ceiling))
    (hwide : lower + 16 ≤ upper) : (mtu.chooseTarget now).retryFull = mtu.retryFull := by
  unfold chooseTarget
  rw [h]
  simp only [Bool.or_eq_true, decide_eq_true_eq]
  rw [if_neg (by omega)]

end ChooseTarget

/-! ## Bracketing the path

Between two bounds, the lower one known to fit and the upper one taken from failures, the search goes for a
size in between. Each size is given three strikes, so the rank counts what the bracket still allows.
-/

/-- The bracket is closed: the search is at the known size. -/
def Closed (mtu : Mtu) (lower upper : Nat) : Prop := mtu.target = lower ∧ upper < lower + 16

/-- The path lies between the bounds as far as the ceiling allows, and every size that was probed
is known to fit, is the target, or is too large. -/
structure Searching (ceiling path : Nat) (ipv6 : Bool) (s : Search) (lower upper : Nat) : Prop where
  bounds : s.mtu.bounds = some (lower, upper, ceiling)
  floor : minimum ipv6 ≤ lower
  lower_le : lower ≤ min path ceiling
  upper_ge : min path ceiling ≤ upper
  upper_le : upper ≤ ceiling
  target : Closed s.mtu lower upper ∨
    lower < s.mtu.target ∧ s.mtu.target ≤ upper ∧
      (s.mtu.target = ceiling ∨ s.mtu.target = chosen lower upper)
  whole : ceiling ≤ path → s.mtu.target = ceiling
  failures : s.mtu.failures ≤ 2
  retry : s.mtu.retryFull.isSome → Closed s.mtu lower upper
  proof : ∀ size confirmed, s.mtu.proof = some (size, confirmed) → size ≤ 32 + path
  probed : ∀ limit ∈ s.probed, ∃ size, limit = 32 + size ∧ size ≤ ceiling ∧
    (ceiling ≤ path → size = ceiling) ∧ (size ≤ lower ∨ size = s.mtu.target ∨ path < size)

/-- Nothing but `sent` has happened. -/
def Fresh (s : Search) : Prop := ∃ sent, s = { mtu := { sent := sent } }

def Bracketed (ceiling path : Nat) (ipv6 : Bool) (s : Search) : Prop :=
  Fresh s ∨ ∃ lower upper, Searching ceiling path ipv6 s lower upper

/-- What the bracket still allows: three strikes for each size left, less those taken. -/
def rank (ceiling : Nat) (ipv6 : Bool) (s : Search) : Nat :=
  match s.mtu.bounds with
  | some (lower, upper, _) => 3 * (upper - lower) + 2 - s.mtu.failures
  | none => 3 * (ceiling - minimum ipv6) + 2

/-- What one event other than a full retry does to the target and the rank. -/
structure Advances (ceiling : Nat) (ipv6 : Bool) (s : Search) (event : Event) (s' : Search) :
    Prop where
  stays : Settled s.mtu → Settled s'.mtu ∧ s'.mtu.target = s.mtu.target
  rank_le : ¬ Settled s.mtu → (if about s event then 1 else 0) + rank ceiling ipv6 s' ≤
    rank ceiling ipv6 s + 2 * (if reconfirms s event then 1 else 0)

variable {ceiling path : Nat} {ipv6 : Bool}

namespace Searching

variable {s : Search} {lower upper : Nat}

theorem lower_le_upper (h : Searching ceiling path ipv6 s lower upper) : lower ≤ upper :=
  h.lower_le.trans h.upper_ge

theorem settled_iff (h : Searching ceiling path ipv6 s lower upper) :
    Settled s.mtu ↔ Closed s.mtu lower upper := by
  constructor
  · rintro ⟨lower', upper', ceiling', hbounds, htarget, hnarrow⟩
    rw [h.bounds] at hbounds
    cases hbounds
    exact ⟨htarget, hnarrow⟩
  · rintro ⟨htarget, hnarrow⟩
    exact ⟨lower, upper, ceiling, h.bounds, htarget, hnarrow⟩

theorem rank_eq (h : Searching ceiling path ipv6 s lower upper) :
    rank ceiling ipv6 s = 3 * (upper - lower) + 2 - s.mtu.failures := by
  rw [rank, h.bounds]

theorem target_range (h : Searching ceiling path ipv6 s lower upper) :
    lower ≤ s.mtu.target ∧ s.mtu.target ≤ ceiling := by
  have hle := h.lower_le_upper
  have hupper := h.upper_le
  rcases h.target with ⟨htarget, -⟩ | ⟨hlt, hle', -⟩ <;> omega

/-- Choosing a target between narrower bounds keeps the bracket, if the old target is known to fit,
known not to, or chosen again. -/
theorem chooses (h : Searching ceiling path ipv6 s lower upper) (mtu : Mtu)
    {lower' upper' now : Nat} (hbounds : mtu.bounds = some (lower', upper', ceiling))
    (hlower : lower ≤ lower') (hupper : upper' ≤ upper) (hlower_le : lower' ≤ min path ceiling)
    (hupper_ge : min path ceiling ≤ upper') (hwhole : ceiling ≤ path → lower' = ceiling)
    (hfailures : mtu.failures = 0) (hretry : mtu.retryFull = s.mtu.retryFull)
    (hproof : ∀ size confirmed, mtu.proof = some (size, confirmed) → size ≤ 32 + path)
    (hknown : s.mtu.target ≤ lower' ∨ s.mtu.target = chosen lower' upper' ∨ path < s.mtu.target) :
    Searching ceiling path ipv6 { s with mtu := mtu.chooseTarget now } lower' upper' := by
  have hle : lower' ≤ upper' := hlower_le.trans hupper_ge
  have htarget : (mtu.chooseTarget now).target = chosen lower' upper' :=
    chooseTarget_target hbounds hle
  have hceiling := h.upper_le
  refine ⟨?_, h.floor.trans hlower, hlower_le, hupper_ge, hupper.trans h.upper_le, ?_, ?_, ?_, ?_,
    ?_, ?_⟩
  · rw [chooseTarget_bounds, hbounds]
  · by_cases hnarrow : upper' < lower' + 16
    · exact .inl ⟨htarget.trans (chosen_narrow hnarrow), hnarrow⟩
    · have hwide : lower' + 16 ≤ chosen lower' upper' ∧ chosen lower' upper' ≤ upper' :=
        chosen_wide (by omega)
      exact .inr ⟨by simp only [htarget]; omega, by simp only [htarget]; omega, .inr htarget⟩
  · intro hpath
    have hfull := hwhole hpath
    show (mtu.chooseTarget now).target = ceiling
    rw [htarget, chosen_narrow (by omega), hfull]
  · rw [chooseTarget_failures, hfailures]
    omega
  · intro hsome
    by_cases hnarrow : upper' < lower' + 16
    · exact ⟨htarget.trans (chosen_narrow hnarrow), hnarrow⟩
    · -- a wide bracket sets no retry, and it was wide before
      rw [chooseTarget_retryFull hbounds (by omega), hretry] at hsome
      have hclosed := (h.retry hsome).2
      omega
  · intro size confirmed hsize
    rw [chooseTarget_proof] at hsize
    exact hproof size confirmed hsize
  · intro limit hmem
    obtain ⟨size, hlimit, hsize, hfull, hknow⟩ := h.probed limit hmem
    refine ⟨size, hlimit, hsize, hfull, ?_⟩
    rcases hknow with hfits | rfl | hlarge
    · exact .inl (hfits.trans hlower)
    · rcases hknown with hfits | hagain | hlarge
      · exact .inl hfits
      · exact .inr (.inl (hagain.trans htarget.symm))
      · exact .inr (.inr hlarge)
    · exact .inr (.inr hlarge)

/-! ## The events

A confirmation, a failure, a probe that goes out, and a full retry. Every one of them keeps the bracket, and
all but the last lower the rank or leave the search as it was.
-/

/-- A confirmation raises the known size to the target, or leaves the bounds alone; either way it
chooses again and clears the strikes. -/
theorem confirm (h : Searching ceiling path ipv6 s lower upper) {limit now : Nat}
    (hreport : Reports path s (.confirm limit now)) :
    let s' := step ceiling ipv6 s (.confirm limit now)
    ∃ lower', Searching ceiling path ipv6 s' lower' upper ∧
      s'.mtu.target = chosen lower' upper ∧ s'.mtu.failures = 0 ∧
      ((lower' = lower ∧ ¬ lower < s.mtu.target) ∨ (lower' = lower ∧ limit ≠ 32 + s.mtu.target) ∨
        (lower < s.mtu.target ∧ limit = 32 + s.mtu.target ∧ lower' = s.mtu.target)) := by
  obtain ⟨hmem, hfits⟩ := hreport
  obtain ⟨size, rfl, hsize, hfull, hknow⟩ := h.probed limit hmem
  have hrange := h.target_range
  have hlower := h.lower_le
  have hupper := h.upper_ge
  have hceiling := h.upper_le
  have hsub : 32 + size - 32 = size := by omega
  let proved := { s.mtu with
    proof := some (32 + size, now), failures := 0
    bounds := some (max lower size, upper, ceiling) }
  have hstep : step ceiling ipv6 s (.confirm (32 + size) now) =
      { s with mtu := proved.chooseTarget now } := by
    simp only [step, Mtu.confirm, h.bounds, hsub, proved]
  rw [hstep]
  refine ⟨max lower size, ?_, chooseTarget_target rfl (by omega), ?_, ?_⟩
  · refine h.chooses proved rfl (by omega) le_rfl (by omega) hupper ?_ rfl rfl ?_ ?_
    · intro hpath
      rw [hfull hpath]
      omega
    · intro size' confirmed hproof
      cases hproof
      exact hfits
    · rcases hknow with hknown | rfl | hlarge
      · rw [max_eq_left hknown]
        rcases h.target with ⟨htarget, -⟩ | ⟨hlt, -, hceil | hchosen⟩
        · exact .inl (by omega)
        · -- the target is still the ceiling: a path of that size has no smaller probes
          by_cases hpath : ceiling ≤ path
          · have := hfull hpath
            omega
          · exact .inr (.inr (by omega))
        · exact .inr (.inl hchosen)
      · exact .inl (by omega)
      · omega
  · rw [chooseTarget_failures]
  · rcases hknow with hknown | rfl | hlarge
    · rcases h.target with ⟨htarget, -⟩ | ⟨hlt, -, -⟩
      · exact .inl ⟨max_eq_left hknown, by omega⟩
      · exact .inr (.inl ⟨max_eq_left hknown, by omega⟩)
    · rcases h.target with ⟨htarget, -⟩ | ⟨hlt, -, -⟩
      · exact .inl ⟨by omega, by omega⟩
      · exact .inr (.inr ⟨hlt, rfl, by omega⟩)
    · omega

/-- A failure is about another size, is a strike, or is the third strike, which lowers the upper
bound below the target. -/
theorem failed (h : Searching ceiling path ipv6 s lower upper) {limit now : Nat}
    (hreport : Reports path s (.failed now limit)) :
    (limit ≠ 32 + s.mtu.target ∧ step ceiling ipv6 s (.failed now limit) = s) ∨
      (limit = 32 + s.mtu.target ∧ lower < s.mtu.target ∧
        ∃ upper', Searching ceiling path ipv6 (step ceiling ipv6 s (.failed now limit)) lower upper' ∧
          3 * (upper' - lower) + 2 - (step ceiling ipv6 s (.failed now limit)).mtu.failures + 1 ≤
            3 * (upper - lower) + 2 - s.mtu.failures) := by
  obtain ⟨hmem, hlarge⟩ := hreport
  by_cases hlimit : limit = 32 + s.mtu.target
  swap
  · refine .inl ⟨hlimit, ?_⟩
    simp [step, Mtu.failed, hlimit]
  subst hlimit
  have hlower := h.lower_le
  have hceiling := h.upper_le
  obtain ⟨hlt, hle⟩ : lower < s.mtu.target ∧ s.mtu.target ≤ upper := by
    rcases h.target with ⟨htarget, -⟩ | ⟨hlt, hle, -⟩
    · omega
    · exact ⟨hlt, hle⟩
  have hpath : ¬ ceiling ≤ path := fun hpath => by
    have := h.whole hpath
    omega
  have hfailures := h.failures
  refine .inr ⟨rfl, hlt, ?_⟩
  by_cases hstrikes : s.mtu.failures < 2
  · have hstep : step ceiling ipv6 s (.failed now (32 + s.mtu.target)) =
        { s with mtu := { s.mtu with failures := s.mtu.failures + 1 } } := by
      have hmin : min (s.mtu.failures + 1) 255 = s.mtu.failures + 1 := by omega
      simp [step, Mtu.failed, hmin, hstrikes]
    rw [hstep]
    refine ⟨upper, ⟨h.bounds, h.floor, h.lower_le, h.upper_ge, h.upper_le, h.target, h.whole, ?_,
      h.retry, h.proof, h.probed⟩, ?_⟩
    · show s.mtu.failures + 1 ≤ 2
      omega
    · show 3 * (upper - lower) + 2 - (s.mtu.failures + 1) + 1 ≤
        3 * (upper - lower) + 2 - s.mtu.failures
      omega
  · let lowered := { s.mtu with
      failures := 0, bounds := some (lower, s.mtu.target - 1, ceiling) }
    have hstep : step ceiling ipv6 s (.failed now (32 + s.mtu.target)) =
        { s with mtu := lowered.chooseTarget now } := by
      have htwo : s.mtu.failures = 2 := by omega
      have hupper : max (min upper (s.mtu.target - 1)) lower = s.mtu.target - 1 := by omega
      have hkeep : ¬ s.mtu.target ≤ lower := by omega
      simp [step, Mtu.failed, htwo, h.bounds, hupper, hkeep, lowered]
    rw [hstep]
    refine ⟨s.mtu.target - 1, h.chooses lowered rfl le_rfl (by omega) hlower (by omega) 
      (fun hfull => absurd hfull hpath) rfl rfl h.proof (.inr (.inr (by omega))), ?_⟩
    rw [chooseTarget_failures]
    show 3 * (s.mtu.target - 1 - lower) + 2 - 0 + 1 ≤ 3 * (upper - lower) + 2 - s.mtu.failures
    omega

theorem markSent (h : Searching ceiling path ipv6 s lower upper) (now : Nat) :
    Searching ceiling path ipv6 { s with mtu := s.mtu.markSent now } lower upper :=
  ⟨h.bounds, h.floor, h.lower_le, h.upper_ge, h.upper_le, h.target, h.whole, h.failures, h.retry,
    h.proof, h.probed⟩

/-- The target may be probed. -/
theorem hands_out (h : Searching ceiling path ipv6 s lower upper) :
    Searching ceiling path ipv6 { s with probed := s.probed ++ [32 + s.mtu.target] } lower upper := by
  refine ⟨h.bounds, h.floor, h.lower_le, h.upper_ge, h.upper_le, h.target, h.whole, h.failures,
    h.retry, h.proof, ?_⟩
  intro limit hmem
  rcases List.mem_append.mp hmem with hmem | hmem
  · exact h.probed limit hmem
  · rw [List.mem_singleton] at hmem
    exact ⟨s.mtu.target, hmem, h.target_range.2, h.whole, .inr (.inl rfl)⟩

/-- A full retry reopens the bracket up to the ceiling. -/
theorem reopens (h : Searching ceiling path ipv6 s lower upper) (hretry : s.mtu.retryFull.isSome) :
    Searching ceiling path ipv6 { s with mtu := { s.mtu with
      bounds := some (lower, ceiling, ceiling), target := ceiling, retryFull := none } }
      lower ceiling := by
  have hlower := h.lower_le
  refine ⟨rfl, h.floor, h.lower_le, min_le_right _ _, le_rfl, ?_, fun _ => rfl, h.failures,
    fun hnone => ?_, h.proof, ?_⟩
  · rcases Nat.lt_or_ge lower ceiling with hlt | hge
    · exact .inr ⟨hlt, le_rfl, .inl rfl⟩
    · exact .inl ⟨by show ceiling = lower; omega, by omega⟩
  · cases hnone
  · intro limit hmem
    obtain ⟨size, hlimit, hsize, hfull, hknow⟩ := h.probed limit hmem
    refine ⟨size, hlimit, hsize, hfull, ?_⟩
    rcases hknow with hfits | rfl | hlarge
    · exact .inl hfits
    · exact .inl (h.retry hretry).1.le
    · exact .inr (.inr hlarge)

end Searching

/-- A size that leaves room for a padded message has a probe. -/
theorem probeOf_eq_some {size : Nat} (hmin : minimum ipv6 ≤ size) (hmax : size ≤ 9000) :
    ∃ message, probeOf size ipv6 = some (message, 32 + size) := by
  refine ⟨.mtuProbe (size - if ipv6 then 76 else 56), ?_⟩
  cases ipv6 with
  | false =>
      have hsize : 64 ≤ size := hmin
      simp only [probeOf, MAX_PROBE_PADDING, Bool.false_eq_true, if_false, Bool.or_eq_true,
        decide_eq_true_eq]
      rw [if_neg (by omega), if_neg (by omega)]
  | true =>
      have hsize : 80 ≤ size := hmin
      simp only [probeOf, MAX_PROBE_PADDING, if_true, Bool.or_eq_true, decide_eq_true_eq]
      rw [if_neg (by omega), if_neg (by omega)]

/-- `next` once the search runs under its ceiling. -/
theorem next_eq {mtu : Mtu} {lower upper : Nat} (h : mtu.bounds = some (lower, upper, ceiling))
    (now interval : Nat) :
    mtu.next ceiling ipv6 now interval =
      if mtu.waits now interval then (none, mtu)
      else if mtu.retryFull.any (· ≤ now) then
        (probeOf ceiling ipv6, { mtu with
          bounds := some (lower, ceiling, ceiling), target := ceiling, retryFull := none })
      else (probeOf mtu.target ipv6, mtu) := by
  have hsame : mtu.retarget ceiling ipv6 = mtu := by simp [retarget, h]
  unfold Mtu.next
  simp only [hsame, h, waits]
  rfl

namespace Searching

variable {s : Search} {lower upper : Nat}

/-- A bracketed search always has a probe to send. -/
theorem probe (h : Searching ceiling path ipv6 s lower upper) (hhigh : ceiling ≤ 9000) :
    ∃ message, probeOf s.mtu.target ipv6 = some (message, 32 + s.mtu.target) :=
  probeOf_eq_some (h.floor.trans h.target_range.1) (h.target_range.2.trans hhigh)

theorem next (h : Searching ceiling path ipv6 s lower upper) (hhigh : ceiling ≤ 9000)
    (now interval : Nat) :
    let s' := step ceiling ipv6 s (.next now interval)
    ∃ upper', Searching ceiling path ipv6 s' lower upper' ∧
      (¬ Retries s (.next now interval) → s'.mtu = s.mtu ∧ upper' = upper) := by
  intro s'
  have hs' : s' = step ceiling ipv6 s (.next now interval) := rfl
  simp only [step, next_eq h.bounds] at hs'
  split at hs'
  · refine ⟨upper, ?_, fun _ => ⟨by rw [hs'], rfl⟩⟩
    rw [hs']
    simpa using h
  · next hwaits =>
    split at hs'
    · next hdue =>
      refine ⟨ceiling, ?_, fun hno => absurd ⟨by simpa using hwaits, hdue⟩ hno⟩
      have hsome : s.mtu.retryFull.isSome := by
        cases hr : s.mtu.retryFull with
        | none => simp [hr] at hdue
        | some due => rfl
      have hopen := h.reopens hsome
      obtain ⟨message, hprobe⟩ := hopen.probe hhigh
      rw [hs', show probeOf ceiling ipv6 = some (message, 32 + ceiling) from hprobe]
      exact hopen.hands_out
    · refine ⟨upper, ?_, fun _ => ⟨by rw [hs'], rfl⟩⟩
      obtain ⟨message, hprobe⟩ := h.probe hhigh
      rw [hs', hprobe]
      exact h.hands_out

end Searching

/-- The first `next` opens the bracket. -/
theorem Fresh.next {s : Search} (h : Fresh s) (hlow : minimum ipv6 ≤ ceiling)
    (hhigh : ceiling ≤ 9000) (hpath : minimum ipv6 ≤ path) (now interval : Nat) :
    let s' := step ceiling ipv6 s (.next now interval)
    Searching ceiling path ipv6 s' (minimum ipv6) ceiling ∧ s'.mtu.failures = 0 := by
  obtain ⟨sent, rfl⟩ := h
  -- the search as `next` starts it, before the probe is handed out
  let start : Search := { mtu := {
    sent := sent, bounds := some (minimum ipv6, ceiling, ceiling), target := ceiling } }
  have hstart : Searching ceiling path ipv6 start (minimum ipv6) ceiling := by
    refine ⟨rfl, le_rfl, by omega, min_le_right _ _, le_rfl, ?_, fun _ => rfl, by simp [start],
      by simp [start], by simp [start], by simp [start]⟩
    rcases Nat.lt_or_ge (minimum ipv6) ceiling with hlt | hge
    · exact .inr ⟨hlt, le_rfl, .inl rfl⟩
    · exact .inl ⟨by show ceiling = minimum ipv6; omega, by omega⟩
  intro s'
  have hs' : s' = step ceiling ipv6 { mtu := { sent := sent } } (.next now interval) := rfl
  have hretarget : ({ sent := sent } : Mtu).retarget ceiling ipv6 = start.mtu := rfl
  simp only [step, Mtu.next, hretarget] at hs'
  split at hs'
  · rw [hs']
    exact ⟨by simpa using hstart, rfl⟩
  · obtain ⟨message, hprobe⟩ := hstart.probe hhigh
    rw [if_neg (by simp [start]), hprobe] at hs'
    rw [hs']
    exact ⟨hstart.hands_out, rfl⟩

theorem Fresh.not_settled {s : Search} (h : Fresh s) : ¬ Settled s.mtu := by
  obtain ⟨sent, rfl⟩ := h
  rintro ⟨lower, upper, ceiling, hbounds, -⟩
  cases hbounds

theorem Fresh.rank_eq {s : Search} (h : Fresh s) :
    rank ceiling ipv6 s = 3 * (ceiling - minimum ipv6) + 2 := by
  obtain ⟨sent, rfl⟩ := h
  rfl

/-- An event that leaves the search as it was advances nothing. -/
theorem Advances.of_same {s s' : Search} {event : Event} (h : s'.mtu.bounds = s.mtu.bounds)
    (htarget : s'.mtu.target = s.mtu.target) (hfailures : s'.mtu.failures = s.mtu.failures)
    (hevent : about s event = false) : Advances ceiling ipv6 s event s' := by
  refine ⟨fun hsettled => ⟨?_, htarget⟩, fun _ => ?_⟩
  · rw [Settled, h, htarget]
    exact hsettled
  · have hrank : rank ceiling ipv6 s' = rank ceiling ipv6 s := by rw [rank, rank, h, hfailures]
    rw [hevent, hrank]
    simp

/-- **One event.** The bracket is kept, and without a full retry the search advances. -/
theorem Searching.step {s : Search} {lower upper : Nat}
    (h : Searching ceiling path ipv6 s lower upper) (hhigh : ceiling ≤ 9000) {event : Event}
    (hreport : Reports path s event) :
    (∃ lower' upper', Searching ceiling path ipv6 (step ceiling ipv6 s event) lower' upper') ∧
      (¬ Retries s event → Advances ceiling ipv6 s event (step ceiling ipv6 s event)) := by
  have hfailures := h.failures
  cases event with
  | next now interval =>
      obtain ⟨upper', hnext, hsame⟩ := h.next hhigh now interval
      refine ⟨⟨lower, upper', hnext⟩, fun hretry => ?_⟩
      have hmtu := (hsame hretry).1
      exact .of_same (by rw [hmtu]) (by rw [hmtu]) (by rw [hmtu]) rfl
  | sent now => exact ⟨⟨lower, upper, h.markSent now⟩, fun _ => .of_same rfl rfl rfl rfl⟩
  | confirm limit now =>
      obtain ⟨lower', hconfirm, htarget, hzero, hlower⟩ := h.confirm hreport
      refine ⟨⟨lower', upper, hconfirm⟩, fun _ => ⟨fun hsettled => ?_, fun hnot => ?_⟩⟩
      · -- a closed bracket is at the known size, which no report raises
        have hclosed := h.settled_iff.mp hsettled
        have hsame : lower' = lower := by
          have := hclosed.1
          omega
        rw [hsame] at hconfirm htarget
        rw [chosen_narrow hclosed.2] at htarget
        exact ⟨hconfirm.settled_iff.mpr ⟨htarget, hclosed.2⟩, htarget.trans hclosed.1.symm⟩
      · have hlt : lower < s.mtu.target := by
          rcases h.target with hclosed | ⟨hlt, -, -⟩
          · exact absurd (h.settled_iff.mpr hclosed) hnot
          · exact hlt
        have hle := hconfirm.lower_le_upper
        rw [h.rank_eq, hconfirm.rank_eq, hzero]
        by_cases hlimit : limit = 32 + s.mtu.target
        · simp only [about, reconfirms, hlimit, decide_true, if_true, ne_eq, not_true_eq_false,
            decide_false, Bool.false_eq_true, if_false]
          omega
        · simp only [about, reconfirms, hlimit, decide_false, Bool.false_eq_true, if_false, ne_eq,
            not_false_eq_true, decide_true, if_true]
          omega
  | failed now limit =>
      rcases h.failed hreport with ⟨hother, hsame⟩ | ⟨hlimit, hlt, upper', hfailed, hrank⟩
      · rw [hsame]
        exact ⟨⟨lower, upper, h⟩, fun _ => .of_same rfl rfl rfl (by simp [about, hother])⟩
      · subst hlimit
        refine ⟨⟨lower, upper', hfailed⟩, fun _ => ⟨fun hsettled => ?_, fun _ => ?_⟩⟩
        · have := (h.settled_iff.mp hsettled).1
          omega
        · rw [h.rank_eq, hfailed.rank_eq]
          simp only [about, decide_true, if_true, reconfirms, Bool.false_eq_true, if_false]
          omega

theorem Bracketed.step {s : Search} (h : Bracketed ceiling path ipv6 s)
    (hlow : minimum ipv6 ≤ ceiling) (hhigh : ceiling ≤ 9000) (hpath : minimum ipv6 ≤ path)
    {event : Event} (hreport : Reports path s event) :
    Bracketed ceiling path ipv6 (step ceiling ipv6 s event) ∧
      (¬ Retries s event → Advances ceiling ipv6 s event (step ceiling ipv6 s event)) := by
  rcases h with hfresh | ⟨lower, upper, h⟩
  swap
  · obtain ⟨hstep, hadvances⟩ := h.step hhigh hreport
    exact ⟨.inr hstep, hadvances⟩
  cases event with
  | next now interval =>
      obtain ⟨hnext, hzero⟩ := hfresh.next hlow hhigh hpath now interval
      refine ⟨.inr ⟨_, _, hnext⟩, fun _ => ⟨fun hsettled => absurd hsettled hfresh.not_settled,
        fun _ => ?_⟩⟩
      rw [hfresh.rank_eq, hnext.rank_eq, hzero]
      simp [about]
  | sent now =>
      obtain ⟨sent, rfl⟩ := hfresh
      exact ⟨.inl ⟨some now, rfl⟩, fun _ => .of_same rfl rfl rfl rfl⟩
  | confirm limit now =>
      obtain ⟨sent, rfl⟩ := hfresh
      cases hreport.1
  | failed now limit =>
      obtain ⟨sent, rfl⟩ := hfresh
      cases hreport.1

/-- A search that need not wait has a probe to send. -/
theorem Bracketed.probes {s : Search} (h : Bracketed ceiling path ipv6 s)
    (hlow : minimum ipv6 ≤ ceiling) (hhigh : ceiling ≤ 9000) {now interval : Nat}
    (hwaits : s.mtu.waits now interval = false) :
    ∃ message limit, (s.mtu.next ceiling ipv6 now interval).1 = some (message, limit) := by
  obtain ⟨message, hwhole⟩ := probeOf_eq_some hlow hhigh
  rcases h with ⟨sent, rfl⟩ | ⟨lower, upper, h⟩
  · have hretarget : ({ sent := sent } : Mtu).retarget ceiling ipv6 =
        { sent := sent, bounds := some (minimum ipv6, ceiling, ceiling), target := ceiling } := rfl
    have hsent : sent.any (now - · < interval) = false := hwaits
    refine ⟨message, 32 + ceiling, ?_⟩
    simp only [Mtu.next, hretarget, hsent, Option.any_none, Bool.false_eq_true, if_false]
    exact hwhole
  · rw [next_eq h.bounds, hwaits]
    simp only [Bool.false_eq_true, if_false]
    split
    · exact ⟨message, _, hwhole⟩
    · obtain ⟨message', hprobe⟩ := h.probe hhigh
      exact ⟨message', _, hprobe⟩

/-! ## Runs

Without a full retry the rank never rises, and every outcome of the target lowers it. So a search settles
after as many outcomes as the rank allows.
-/

section Runs

variable (hlow : minimum ipv6 ≤ ceiling) (hhigh : ceiling ≤ 9000) (hpath : minimum ipv6 ≤ path)
include hlow hhigh hpath

theorem run_bracketed {events : List Event}
    (h : Throughout (step ceiling ipv6) (Reports path) {} events) :
    Bracketed ceiling path ipv6 (exec (step ceiling ipv6) {} events) :=
  h.keeps (fun _ _ hs hreport => (hs.step hlow hhigh hpath hreport).1) (.inl ⟨none, rfl⟩)

/-- Without a full retry a settled search stays where it is. -/
theorem settled_stays {s : Search} (hs : Bracketed ceiling path ipv6 s) {more : List Event}
    (h : Throughout (step ceiling ipv6) (fun s event => Reports path s event ∧ ¬ Retries s event)
      s more)
    (hsettled : Settled s.mtu) :
    Settled (exec (step ceiling ipv6) s more).mtu ∧
      (exec (step ceiling ipv6) s more).mtu.target = s.mtu.target := by
  have hkeep := h.keeps
    (I := fun s' => Bracketed ceiling path ipv6 s' ∧ Settled s'.mtu ∧ s'.mtu.target = s.mtu.target)
    (fun s' event hs' hevent => by
      obtain ⟨hstep, hadvances⟩ := hs'.1.step hlow hhigh hpath hevent.1
      obtain ⟨hstays, htarget⟩ := (hadvances hevent.2).stays hs'.2.1
      exact ⟨hstep, hstays, htarget.trans hs'.2.2⟩)
    ⟨hs, hsettled, rfl⟩
  exact hkeep.2

/-- Without a full retry, a search that has not settled has had few outcomes. -/
theorem outcomes_le {s : Search} (hs : Bracketed ceiling path ipv6 s) {more : List Event}
    (h : Throughout (step ceiling ipv6) (fun s event => Reports path s event ∧ ¬ Retries s event)
      s more)
    (hnot : ¬ Settled (exec (step ceiling ipv6) s more).mtu) :
    tally (step ceiling ipv6) about s more ≤
      3 * (ceiling - minimum ipv6) + 2 + 2 * tally (step ceiling ipv6) reconfirms s more := by
  have hranked : tally (step ceiling ipv6) about s more +
      rank ceiling ipv6 (exec (step ceiling ipv6) s more) ≤
        rank ceiling ipv6 s + 2 * tally (step ceiling ipv6) reconfirms s more := h.tally_add_rank_le
    (I := Bracketed ceiling path ipv6) (D := fun s => Settled s.mtu) (p := about) (q := reconfirms)
    (r := rank ceiling ipv6) (c := 2)
    (fun s event hs hevent => (hs.step hlow hhigh hpath hevent.1).1)
    (fun s event hs hevent hsettled =>
      (((hs.step hlow hhigh hpath hevent.1).2 hevent.2).stays hsettled).1)
    (fun s event hs hevent hnot => ((hs.step hlow hhigh hpath hevent.1).2 hevent.2).rank_le hnot)
    hs hnot
  have hstart : rank ceiling ipv6 s ≤ 3 * (ceiling - minimum ipv6) + 2 := by
    rcases hs with hfresh | ⟨lower, upper, hs⟩
    · exact hfresh.rank_eq.le
    · have hfloor := hs.floor
      have hupper := hs.upper_le
      rw [hs.rank_eq]
      omega
  omega

/-- **The search converges and never overclaims.** Whatever was reported so far, the proved size
fits the path, the bounds bracket it and there is always a probe to send. A settled target fits
the path within sixteen bytes (or is the whole ceiling) and stays until the next full retry; and
a search that is not settled has, since the last full retry, had at most three outcomes for each
size between the bounds, and two more for each confirmation of another size. -/
theorem search_settles {events more : List Event}
    (h : Throughout (step ceiling ipv6) (Reports path) {} (events ++ more)) :
    let s := exec (step ceiling ipv6) {} events
    let s' := exec (step ceiling ipv6) s more
    (∀ now lifetime, s.mtu.limit now lifetime 96 ≤ max 96 (32 + path)) ∧
    (∀ lower upper top, s.mtu.bounds = some (lower, upper, top) →
      minimum ipv6 ≤ lower ∧ lower ≤ path ∧ lower ≤ upper ∧ upper ≤ ceiling ∧ top = ceiling ∧
        (probeOf s.mtu.target ipv6).isSome) ∧
    (∀ now interval, s.mtu.waits now interval = false →
      (s.mtu.next ceiling ipv6 now interval).1.isSome) ∧
    (Settled s.mtu → s.mtu.target ≤ path ∧ (path < ceiling → path < s.mtu.target + 16) ∧
      (ceiling ≤ path → s.mtu.target = ceiling)) ∧
    (Throughout (step ceiling ipv6) (fun s event => ¬ Retries s event) s more →
      (Settled s.mtu → Settled s'.mtu ∧ s'.mtu.target = s.mtu.target) ∧
      (¬ Settled s'.mtu → tally (step ceiling ipv6) about s more ≤
        3 * (ceiling - minimum ipv6) + 2 + 2 * tally (step ceiling ipv6) reconfirms s more)) := by
  intro s s'
  obtain ⟨hevents, hmore⟩ := throughout_append.mp h
  have hs : Bracketed ceiling path ipv6 s := run_bracketed hlow hhigh hpath hevents
  refine ⟨?_, ?_, ?_, ?_, fun hretries => ?_⟩
  · intro now lifetime
    have hproof : ∀ size confirmed, s.mtu.proof = some (size, confirmed) → size ≤ 32 + path := by
      rcases hs with ⟨sent, hfresh⟩ | ⟨lower, upper, hs⟩
      · rw [hfresh]
        simp
      · exact hs.proof
    unfold limit
    split
    · next size confirmed hsome =>
      have hle := hproof size confirmed hsome
      split <;> omega
    · omega
  · intro lower upper top hbounds
    rcases hs with ⟨sent, hfresh⟩ | ⟨lower', upper', hs⟩
    · rw [hfresh] at hbounds
      cases hbounds
    · rw [hs.bounds] at hbounds
      cases hbounds
      obtain ⟨message, hprobe⟩ := hs.probe hhigh
      exact ⟨hs.floor, hs.lower_le.trans (min_le_left _ _), hs.lower_le_upper, hs.upper_le, rfl,
        by rw [hprobe]; rfl⟩
  · intro now interval hwaits
    obtain ⟨message, limit, hnext⟩ := hs.probes hlow hhigh hwaits
    rw [hnext]
    rfl
  · intro hsettled
    rcases hs with hfresh | ⟨lower, upper, hs⟩
    · exact absurd hsettled hfresh.not_settled
    · obtain ⟨htarget, hnarrow⟩ := hs.settled_iff.mp hsettled
      have hlower := hs.lower_le
      have hupper := hs.upper_ge
      exact ⟨by omega, fun _ => by omega, hs.whole⟩
  · have hboth := hmore.and hretries
    exact ⟨fun hsettled => settled_stays hlow hhigh hpath hs hboth hsettled,
      fun hnot => outcomes_le hlow hhigh hpath hs hboth hnot⟩

end Runs

/-- One probe and what is reported of it. -/
def attempt (now : Nat) (outcome : Event) : List Event :=
  [.next now (seconds 1), .sent now, outcome]

/-- A path of 1000 bytes under a ceiling of 1280: 1280 fails three times, 656 and 960 get through. -/
def approach : List Event :=
  attempt (seconds 0) (.failed (seconds 1) 1312) ++ attempt (seconds 1) (.failed (seconds 2) 1312) ++
    attempt (seconds 2) (.failed (seconds 3) 1312) ++ attempt (seconds 3) (.confirm 688 (seconds 4)) ++
    attempt (seconds 4) (.confirm 992 (seconds 5))

theorem search_settles_approach :
    let s := exec (step 1280 false) {} approach
    s.mtu.limit (seconds 6) (seconds 5) 96 ≤ max 96 (32 + 1000) ∧
      (probeOf s.mtu.target false).isSome := by
  have hrun : Throughout (step 1280 false) (Reports 1000) {} (approach ++ []) := by decide
  have h := search_settles (by decide) (by decide) (by decide) hrun
  exact ⟨h.1 (seconds 6) (seconds 5), (h.2.1 960 1279 1280 rfl).2.2.2.2.2⟩

/-! ## Strikes that are cleared again

A confirmation that arrives twice clears the strikes of the target without moving a bound. Two failures and
one such confirmation lead back to the same state, as often as one likes.
-/

/-- 1104 is tried and fails twice, and the confirmation of 960 is reported once more. -/
def cleared (now : Nat) : List Event :=
  attempt now (.failed (now + seconds 1) 1136) ++
    attempt (now + seconds 1) (.failed (now + seconds 2) 1136) ++ [.confirm 992 (now + seconds 2)]

/-- The search is at 1104, last probed at `sent`. -/
def stalled (confirmed sent failures : Nat) : Mtu :=
  { proof := some (992, confirmed), sent := some sent, failures
    bounds := some (960, 1279, 1280), target := 1104 }

section Stalled

variable {confirmed sent failures now interval : Nat} {probed : List Nat}

/-- In time, the probe goes out again. -/
theorem stalled_next (hdue : ¬ now - sent < interval) :
    step 1280 false ⟨stalled confirmed sent failures, probed⟩ (.next now interval) =
      ⟨stalled confirmed sent failures, probed ++ [1136]⟩ := by
  have hwaits : (stalled confirmed sent failures).waits now interval = false := decide_eq_false hdue
  have hbounds : (stalled confirmed sent failures).bounds = some (960, 1279, 1280) := rfl
  simp only [step, next_eq hbounds, hwaits]
  rfl

theorem stalled_failed (later : Nat) (hfew : failures < 2) :
    step 1280 false ⟨stalled confirmed sent failures, probed⟩ (.failed later 1136) =
      ⟨stalled confirmed sent (failures + 1), probed⟩ := by
  have hmin : min (failures + 1) 255 = failures + 1 := by omega
  simp [step, Mtu.failed, stalled, hmin, hfew]

/-- An old confirmation clears the strikes and leaves the target. -/
theorem stalled_confirm (later : Nat) :
    step 1280 false ⟨stalled confirmed sent failures, probed⟩ (.confirm 992 later) =
      ⟨stalled later sent 0, probed⟩ := rfl

/-- Events of a path of 1000 bytes without a full retry. -/
def Retrying (s : Search) (event : Event) : Prop := Reports 1000 s event ∧ ¬ Retries s event

theorem stalled_attempt (confirmed : Nat) {failures : Nat} (later : Nat) (probed : List Nat)
    (hdue : ¬ now - sent < seconds 1) (hfew : failures < 2) :
    let s : Search := ⟨stalled confirmed sent failures, probed⟩
    let events := attempt now (.failed later 1136)
    Throughout (step 1280 false) Retrying s events ∧
      exec (step 1280 false) s events =
        ⟨stalled confirmed now (failures + 1), probed ++ [1136]⟩ ∧
      tally (step 1280 false) about s events = 1 := by
  intro s events
  have hnext : step 1280 false s (.next now (seconds 1)) =
    ⟨stalled confirmed sent failures, probed ++ [1136]⟩ := stalled_next hdue
  have hsent : step 1280 false ⟨stalled confirmed sent failures, probed ++ [1136]⟩ (.sent now) =
    ⟨stalled confirmed now failures, probed ++ [1136]⟩ := rfl
  have hfailed : step 1280 false ⟨stalled confirmed now failures, probed ++ [1136]⟩
    (.failed later 1136) = ⟨stalled confirmed now (failures + 1), probed ++ [1136]⟩ :=
    stalled_failed later hfew
  refine ⟨⟨⟨trivial, ?_⟩, ?_⟩, ?_, ?_⟩
  · rintro ⟨-, hretry⟩
    cases hretry
  · rw [hnext]
    refine ⟨⟨trivial, id⟩, ?_⟩
    rw [hsent]
    exact ⟨⟨⟨by simp, by decide⟩, id⟩, trivial⟩
  · simp only [events, attempt, exec_cons, exec_nil, hnext, hsent, hfailed]
  · simp only [events, attempt, tally, hnext, hsent]
    rfl

/-- A round of two failures and an old confirmation ends where it started. -/
theorem stalled_cleared (confirmed : Nat) {probed : List Nat} (hdue : ¬ now - sent < seconds 1)
    (hmem : 992 ∈ probed) :
    let s : Search := ⟨stalled confirmed sent 0, probed⟩
    Throughout (step 1280 false) Retrying s (cleared now) ∧
      exec (step 1280 false) s (cleared now) =
        ⟨stalled (now + seconds 2) (now + seconds 1) 0, probed ++ [1136] ++ [1136]⟩ ∧
      tally (step 1280 false) about s (cleared now) = 2 := by
  intro s
  obtain ⟨hfirst, hfirst_exec, hfirst_tally⟩ :=
    stalled_attempt confirmed (now + seconds 1) probed hdue (by omega : 0 < 2)
  have hagain : ¬ now + seconds 1 - now < seconds 1 := by omega
  obtain ⟨hsecond, hsecond_exec, hsecond_tally⟩ :=
    stalled_attempt confirmed (now + seconds 2) (probed ++ [1136]) hagain (by omega : 0 + 1 < 2)
  have hconfirm : step 1280 false ⟨stalled confirmed (now + seconds 1) (0 + 1 + 1),
      probed ++ [1136] ++ [1136]⟩ (.confirm 992 (now + seconds 2)) =
      ⟨stalled (now + seconds 2) (now + seconds 1) 0, probed ++ [1136] ++ [1136]⟩ :=
    stalled_confirm (now + seconds 2)
  refine ⟨?_, ?_, ?_⟩
  · rw [cleared, throughout_append, throughout_append, exec_append, hfirst_exec, hsecond_exec]
    exact ⟨⟨hfirst, hsecond⟩, ⟨⟨by simp [hmem], by decide⟩, id⟩, trivial⟩
  · rw [cleared, exec_append, exec_append, hfirst_exec, hsecond_exec, exec_cons, exec_nil, hconfirm]
  · rw [cleared, tally_append, tally_append, exec_append, hfirst_exec, hsecond_exec, hfirst_tally,
      hsecond_tally]
    rfl

/-- Rounds of two seconds each. -/
def rounds : Nat → Nat → List Event
  | 0, _ => []
  | n + 1, now => cleared now ++ rounds n (now + seconds 2)

theorem stalled_rounds (confirmed n : Nat) {probed : List Nat} (hdue : ¬ now - sent < seconds 1)
    (hmem : 992 ∈ probed) :
    let s : Search := ⟨stalled confirmed sent 0, probed⟩
    Throughout (step 1280 false) Retrying s (rounds n now) ∧
      (∃ confirmed' sent' probed',
        exec (step 1280 false) s (rounds n now) = ⟨stalled confirmed' sent' 0, probed'⟩) ∧
      tally (step 1280 false) about s (rounds n now) = 2 * n := by
  induction n generalizing confirmed sent now probed with
  | zero => exact ⟨trivial, ⟨_, _, _, rfl⟩, rfl⟩
  | succ n ih =>
      intro s
      obtain ⟨hround, hexec, htally⟩ := stalled_cleared confirmed hdue hmem
      have hagain : ¬ now + seconds 2 - (now + seconds 1) < seconds 1 := by
        have htwo : seconds 2 = seconds 1 + seconds 1 := by decide
        omega
      obtain ⟨hrest, ⟨confirmed', sent', probed', hend⟩, hcount⟩ :=
        @ih (now + seconds 1) (now + seconds 2) (now + seconds 2) (probed ++ [1136] ++ [1136]) hagain
          (by simp [hmem])
      refine ⟨?_, ⟨confirmed', sent', probed', ?_⟩, ?_⟩
      · rw [rounds, throughout_append, hexec]
        exact ⟨hround, hrest⟩
      · rw [rounds, exec_append, hexec, hend]
      · rw [rounds, tally_append, hexec, htally, hcount]
        omega

/-- Reports of a path of 1000 bytes, each probe answered and no full retry, after which any number
of outcomes leaves the search at 1104, a size that does not fit. -/
theorem rounds_stay :
    ∀ n, let s := exec (step 1280 false) {} (approach ++ rounds n (seconds 5))
      Throughout (step 1280 false) (fun s event => Reports 1000 s event ∧ ¬ Retries s event) {}
        (approach ++ rounds n (seconds 5)) ∧
      tally (step 1280 false) about (exec (step 1280 false) {} approach) (rounds n (seconds 5)) =
        2 * n ∧
      s.mtu.target = 1104 ∧ ¬ s.mtu.target ≤ 1000 ∧ ¬ Settled s.mtu := by
  intro n s
  have happroach : exec (step 1280 false) {} approach =
      ⟨stalled (seconds 5) (seconds 4) 0, [1312, 1312, 1312, 688, 992]⟩ := by rfl
  have hreports : Throughout (step 1280 false) Retrying {} approach := by
    unfold Retrying
    decide
  have hdue : ¬ seconds 5 - seconds 4 < seconds 1 := by decide
  obtain ⟨hrounds, ⟨confirmed, sent, probed, hend⟩, hcount⟩ :=
    stalled_rounds (seconds 5) n hdue (by simp : 992 ∈ [1312, 1312, 1312, 688, 992])
  have hs : s = ⟨stalled confirmed sent 0, probed⟩ := by
    show exec _ _ (approach ++ _) = _
    rw [exec_append, happroach, hend]
  refine ⟨?_, ?_, ?_, ?_, ?_⟩
  · rw [throughout_append, happroach]
    exact ⟨hreports, hrounds⟩
  · rw [happroach, hcount]
  · rw [hs]
    rfl
  · rw [hs]
    show ¬ 1104 ≤ 1000
    decide
  · rw [hs]
    rintro ⟨lower, upper, ceiling, hbounds, htarget, -⟩
    cases hbounds
    cases htarget

/-- No number of outcomes, however large, makes the search settle. -/
theorem rounds_never_settle : ¬ ∃ bound, ∀ events,
    Throughout (step 1280 false) (fun s event => Reports 1000 s event ∧ ¬ Retries s event) {} events →
      bound ≤ tally (step 1280 false) about {} events →
        Settled (exec (step 1280 false) {} events).mtu := by
  rintro ⟨bound, h⟩
  obtain ⟨hreports, hcount, -, -, hsettled⟩ := rounds_stay bound
  refine hsettled (h _ hreports ?_)
  rw [tally_append, hcount]
  omega

end Stalled

end Mtu

end Peerward.PeerCore
