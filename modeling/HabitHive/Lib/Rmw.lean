import Mathlib.Data.List.Perm.Basic
import Mathlib.Data.Int.Init

/-!
# A counter that is read and written back plus one

Requests share a register.  Each request reads the register at some moment
and later writes back the value it read plus one, without a transaction.
`flight` holds the requests that have not written yet: `none` is a request
whose read is still to come, and `some v` is one that has read `v`.

* `Clean start total reg flight`: `total` requests were made on a register
  that held `start`, and no update was lost.
* `Lossy start total reg flight`: an update was lost.

A write-back of the value that the register still holds keeps `Clean`, and
any other write-back leads to `Lossy` (`Clean.lose`).  No later request
makes up for a lost update: `Lossy` is kept by every step.
-/

namespace Rmw

variable {start total reg v : ℤ} {flight flight' : List (Option ℤ)}

/-- No update was lost, and no request has read more than the register
holds. -/
structure Clean (start total reg : ℤ) (flight : List (Option ℤ)) : Prop where
  count : reg + flight.length = start + total
  sampled : ∀ v, some v ∈ flight → v ≤ reg

/-- An update was lost, and each write-back still to come is too low as
well. -/
structure Lossy (start total reg : ℤ) (flight : List (Option ℤ)) : Prop where
  count : reg + flight.length < start + total
  sampled : ∀ v, some v ∈ flight → v + flight.length < start + total

namespace Clean

theorem perm (h : Clean start total reg flight) (hperm : flight.Perm flight') :
    Clean start total reg flight' where
  count := hperm.length_eq ▸ h.count
  sampled v hv := h.sampled v (hperm.mem_iff.mpr hv)

theorem request (h : Clean start total reg flight) :
    Clean start (total + 1) reg (none :: flight) where
  count := by
    have := h.count
    rw [List.length_cons]
    omega
  sampled v hv := h.sampled v (by simpa using hv)

theorem sample (h : Clean start total reg (none :: flight)) :
    Clean start total reg (some reg :: flight) where
  count := h.count
  sampled v hv := by
    rcases List.mem_cons.mp hv with hv | hv
    · rw [Option.some.injEq] at hv
      omega
    · exact h.sampled v (List.mem_cons_of_mem _ hv)

/-- The register still holds what the request read. -/
theorem commit (h : Clean start total reg (some reg :: flight)) :
    Clean start total (reg + 1) flight where
  count := by
    have := h.count
    rw [List.length_cons] at this
    omega
  sampled v hv := by
    have := h.sampled v (List.mem_cons_of_mem _ hv)
    omega

/-- The register has moved on since the request read it. -/
theorem lose (h : Clean start total reg (some v :: flight)) (hv : v ≠ reg) :
    Lossy start total (v + 1) flight := by
  have hle := h.sampled v (by simp)
  have hcount := h.count
  rw [List.length_cons] at hcount
  refine ⟨by omega, fun w hw => ?_⟩
  have := h.sampled w (List.mem_cons_of_mem _ hw)
  omega

end Clean

namespace Lossy

theorem perm (h : Lossy start total reg flight) (hperm : flight.Perm flight') :
    Lossy start total reg flight' where
  count := hperm.length_eq ▸ h.count
  sampled v hv := hperm.length_eq ▸ h.sampled v (hperm.mem_iff.mpr hv)

theorem request (h : Lossy start total reg flight) :
    Lossy start (total + 1) reg (none :: flight) where
  count := by
    have := h.count
    rw [List.length_cons]
    omega
  sampled v hv := by
    have := h.sampled v (by simpa using hv)
    rw [List.length_cons]
    omega

theorem sample (h : Lossy start total reg (none :: flight)) :
    Lossy start total reg (some reg :: flight) where
  count := h.count
  sampled v hv := by
    rcases List.mem_cons.mp hv with hv | hv
    · rw [Option.some.injEq] at hv
      exact hv ▸ h.count
    · exact h.sampled v (List.mem_cons_of_mem _ hv)

theorem commit (h : Lossy start total reg (some v :: flight)) :
    Lossy start total (v + 1) flight where
  count := by
    have := h.sampled v (by simp)
    rw [List.length_cons] at this
    omega
  sampled w hw := by
    have := h.sampled w (List.mem_cons_of_mem _ hw)
    rw [List.length_cons] at this
    omega

theorem finished (h : Lossy start total reg []) : reg < start + total := by
  simpa using h.count

end Lossy

end Rmw
