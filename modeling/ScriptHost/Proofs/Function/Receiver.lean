import ScriptHost.Proofs.Function.Acceptance

/-!
# Only the first parameter is a receiver

A host function is worked into a native one parameter by parameter.  A handle is refused for
every parameter but the first, a missing annotation is made a reference for the first only,
and a forced style changes the first only.

* `Native.not_isReceiver_of_mem_tail`: so no other parameter of a native function is a receiver.
* `Native.not_isReceiver_of_pure`, `Native.exists_receiver_of_method`: what the style says
  about all parameters.
-/

namespace ScriptHost

namespace Native

variable {r : ShapeRequest} {f : Native}

/-- **No parameter but the first is a receiver.** -/
theorem not_isReceiver_of_mem_tail (hmade : Native.ofHost r = .ok f) :
    ∀ p ∈ f.params.tail, p.binding.isReceiver = false := by
  obtain ⟨g, given, hints, ps, hyields⟩ := ofHost_eq_ok_iff.mp hmade
  intro p hp
  rw [hyields.styled.tail_eq] at hp
  obtain ⟨j, hj⟩ := List.mem_iff_getElem?.mp hp
  rw [List.getElem?_tail] at hj
  have hreads := (ShapeRequest.forall_reads_of_params hyields.read).2 (j + 1) p hj
  refine Bool.eq_false_iff.mpr fun hreceiver => ?_
  exact absurd (hreads.first_of_isReceiver hreceiver) (by simp)

/-- A function of the pure style has no receiver. -/
theorem not_isReceiver_of_pure (hmade : Native.ofHost r = .ok f) (hstyle : f.style = .pure) :
    ∀ p ∈ f.params, p.binding.isReceiver = false := by
  have htail := not_isReceiver_of_mem_tail hmade
  rw [style] at hstyle
  split at hstyle
  · rename_i p ps hparams
    rw [hparams] at htail ⊢
    split at hstyle
    · simp at hstyle
    · rename_i hreceiver
      exact List.forall_mem_cons.mpr ⟨Bool.eq_false_iff.mpr hreceiver, htail⟩
  · rename_i hparams
    rw [hparams]
    exact fun _ hp => absurd hp List.not_mem_nil

/-- A function of the method style has just one receiver, the first parameter. -/
theorem exists_receiver_of_method (hmade : Native.ofHost r = .ok f) (hstyle : f.style = .method) :
    ∃ p ps, f.params = p :: ps ∧ p.binding.isReceiver = true ∧
      ∀ q ∈ ps, q.binding.isReceiver = false := by
  have htail := not_isReceiver_of_mem_tail hmade
  rw [style] at hstyle
  split at hstyle
  · rename_i p ps hparams
    rw [hparams] at htail
    split at hstyle
    · rename_i hreceiver
      exact ⟨p, ps, hparams, hreceiver, htail⟩
    · simp at hstyle
  · simp at hstyle

end Native
end ScriptHost
