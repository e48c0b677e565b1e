import DnsGate.Forward.WebClient

/-!
What the web client does with a message, whatever it meets: it waits neither longer than its caller
nor longer than its own limit, makes at most eleven requests, and posts nothing but the message
(`Visit.trip_bounded`).  It makes a single request exactly if no redirect comes while it waits
(`Visit.trip_requests_eq_iff`).
-/

namespace DnsGate.Forward

theorem Ending.wait_time_le (ending : Ending) (patience : Nat) :
    (ending.wait patience).1 ≤ patience := by
  cases ending with
  | broken => exact Nat.zero_le _
  | silent => exact Nat.le_refl _
  | answer delay status body =>
    dsimp only [wait]
    split
    · exact Nat.le_refl _
    · exact Nat.le_of_not_lt ‹_›

theorem Ending.wait_eq_answer_iff {ending : Ending} {patience delay status : Nat} {body : Bytes} :
    ending.wait patience = (delay, .answer status body) ↔
      ending = .answer delay status body ∧ delay ≤ patience := by
  cases ending with
  | broken => simp [wait]
  | silent => simp [wait]
  | answer delay' status' body' =>
    dsimp only [wait]
    split
    · rename_i hlate
      simp only [Prod.mk.injEq, reduceCtorEq, and_false, false_iff, not_and, answer.injEq]
      rintro ⟨rfl, -, -⟩
      exact Nat.not_le.mpr hlate
    · rename_i hcame
      simp only [Prod.mk.injEq, Arrival.answer.injEq, answer.injEq]
      constructor
      · rintro ⟨rfl, rfl, rfl⟩
        exact ⟨⟨rfl, rfl, rfl⟩, Nat.le_of_not_lt hcame⟩
      · rintro ⟨⟨rfl, rfl, rfl⟩, -⟩
        exact ⟨rfl, rfl, rfl⟩

section Browse

variable (ending : Ending) (room patience : Nat) (request : WebRequest) (redirects : List Redirect)

-- The cases of `browse`: no redirect, one that comes too late, one too many, one that is followed.

theorem browse_time_le : (browse ending room patience request redirects).time ≤ patience := by
  fun_induction browse ending room patience request redirects with
  | case1 => exact ending.wait_time_le _
  | case2 => exact Nat.le_refl _
  | case3 _ _ _ _ hcame => exact Nat.le_of_not_lt hcame
  | case4 _ _ _ _ _ hcame _ ih =>
    dsimp only [Trip.after]
    omega

theorem browse_requests_length_le :
    (browse ending room patience request redirects).requests.length ≤ room + 1 := by
  fun_induction browse ending room patience request redirects with
  | case1 => exact Nat.le_add_left _ _
  | case2 => exact Nat.le_add_left _ _
  | case3 => exact Nat.le_refl _
  | case4 _ _ _ _ _ _ hroom ih =>
    dsimp only [Trip.after]
    rw [List.length_cons]
    omega

/-- A redirect has the message posted again, or no message. -/
theorem Redirect.next_message (r : Redirect) :
    (r.next request).message = none ∨ (r.next request).message = request.message := by
  unfold next
  dsimp only
  split
  · exact Or.inr rfl
  · exact Or.inl rfl

theorem browse_posts : ∀ q ∈ (browse ending room patience request redirects).requests,
    q.message = none ∨ q.message = request.message := by
  have hself (request : WebRequest) :
      ∀ q ∈ [request], q.message = none ∨ q.message = request.message := by
    intro q hq
    rw [List.mem_singleton.mp hq]
    exact Or.inr rfl
  fun_induction browse ending room patience request redirects with
  | case1 => exact hself _
  | case2 => exact hself _
  | case3 => exact hself _
  | case4 _ _ request r _ _ _ ih =>
    intro q hq
    rcases List.mem_cons.mp hq with rfl | hq
    · exact Or.inr rfl
    · rcases ih q hq with hnone | hsame
      · exact Or.inl hnone
      · rw [hsame]
        exact r.next_message request

/-- A trip is never without a request. -/
theorem browse_requests_ne_nil :
    (browse ending room patience request redirects).requests ≠ [] := by
  fun_induction browse ending room patience request redirects <;> exact List.cons_ne_nil _ _

end Browse

namespace Visit

variable (v : Visit) (left : Nat) (request : WebRequest)

/-- The client makes a single request exactly if no redirect comes while it waits. -/
theorem trip_requests_eq_iff : (v.trip left request).requests = [request] ↔
    ∀ r ∈ v.redirects.head?, min left webLimit < r.delay := by
  unfold trip
  cases v.redirects with
  | nil => exact iff_of_true rfl (by rintro r ⟨⟩)
  | cons r rest =>
    have hroom : maxRedirects ≠ 0 := by decide
    unfold browse
    rw [if_neg hroom]
    by_cases hlate : min left webLimit < r.delay
    · rw [if_pos hlate]
      refine iff_of_true rfl ?_
      rintro r ⟨⟩
      exact hlate
    · rw [if_neg hlate]
      have hmore := browse_requests_ne_nil v.ending (maxRedirects - 1)
        (min left webLimit - r.delay) (r.next request) rest
      exact iff_of_false (fun h => hmore (List.cons.inj h).2) fun h => hlate (h r rfl)

/-- If no redirect comes while the client waits, it has an answer exactly if that is the first
thing that comes, and comes while it waits. -/
theorem trip_answer_iff {v : Visit} {left : Nat} {request : WebRequest} {delay status : Nat}
    {body : Bytes} (h : ∀ r ∈ v.redirects.head?, min left webLimit < r.delay) :
    (v.trip left request).time = delay ∧ (v.trip left request).arrival = .answer status body ↔
      v = ⟨[], .answer delay status body⟩ ∧ delay ≤ min left webLimit := by
  obtain ⟨redirects, ending⟩ := v
  unfold trip
  cases redirects with
  | nil =>
    refine (Prod.ext_iff.symm.trans Ending.wait_eq_answer_iff).trans ?_
    simp only [mk.injEq, true_and]
  | cons r rest =>
    have hlate : min left webLimit < r.delay := h r rfl
    dsimp only [browse]
    rw [if_pos hlate]
    refine iff_of_false ?_ ?_
    · rintro ⟨-, ⟨⟩⟩
    · rintro ⟨⟨⟩, -⟩

/-- Whatever the client meets, it waits neither longer than its caller nor longer than its own
limit, makes at most eleven requests, and posts nothing but the message. -/
theorem trip_bounded : (v.trip left request).time ≤ left ∧ (v.trip left request).time ≤ webLimit ∧
    (v.trip left request).requests.length ≤ 11 ∧
    ∀ q ∈ (v.trip left request).requests, q.message = none ∨ q.message = request.message := by
  have htime := browse_time_le v.ending maxRedirects (min left webLimit) request v.redirects
  exact ⟨Nat.le_trans htime (Nat.min_le_left _ _), Nat.le_trans htime (Nat.min_le_right _ _),
    browse_requests_length_le _ _ _ _ _, browse_posts _ _ _ _ _⟩

end Visit

end DnsGate.Forward
