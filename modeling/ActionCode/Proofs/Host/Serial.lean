import ActionCode.Proofs.Host.History

namespace ActionCode

namespace Registry

variable {κ : Type} {r : Registry κ}

theorem action?_of_step {change : Change κ} {k : Name} {action : Action κ}
    (h : (r.step change).state.action? k = some action) :
    r.action? k = some action ∨
      ∃ g, change.name? = some k ∧ change.registration? = some g ∧ g.action = action := by
  rw [action?_step] at h
  split at h
  · contradiction
  · split at h
    · unfold Change.registers? at h
      split at h
      · cases hg : change.registration? with
        | none => exact .inl (by simpa [hg] using h)
        | some g => exact .inr ⟨g, ‹_›, rfl, by simpa [hg] using h⟩
      · exact .inl (by simpa using h)
    · exact .inl h

end Registry

namespace Host

/-- What an action is known by in the registry: its serial number is used up,
and no other name has it. -/
structure Fresh (h : Host) : Prop where
  serial_lt : ∀ {k : Name} {a : Action Stack}, h.registry.action? k = some a → a.serial < h.serial
  eq_of_serial : ∀ {k l : Name} {a b : Action Stack}, h.registry.action? k = some a →
    h.registry.action? l = some b → a.serial = b.serial → k = l

theorem fresh_empty : Fresh empty where
  serial_lt h := by contradiction
  eq_of_serial h := by contradiction

theorem Request.serial_of_change? {request : Request} {serial : Nat}
    {change : Registry.Change Stack} {g : Registry.Registration Stack}
    (h : request.change? serial = some change) (hg : change.registration? = some g) :
    g.action.serial = serial ∧ request.makesAction = true := by
  cases request <;> simp [Request.change?] at h <;> subst h <;>
    simp [Registry.Change.registration?] at hg <;> subst hg <;> exact ⟨rfl, rfl⟩

theorem action?_of_step {h : Host} {request : Request} {k : Name} {a : Action Stack}
    (ha : (h.step request).state.registry.action? k = some a) :
    h.registry.action? k = some a ∨
      (a.serial = h.serial ∧ (h.step request).state.serial = h.serial + 1 ∧
        (request.change? h.serial).bind Registry.Change.name? = some k) := by
  obtain ⟨hregistry, hserial⟩ := h.step_registry request
  rw [hregistry] at ha
  cases hchange : request.change? h.serial with
  | none =>
    rw [hchange] at ha
    exact .inl ha
  | some change =>
    rw [hchange] at ha
    obtain hold | ⟨g, hname, hg, rfl⟩ := Registry.action?_of_step ha
    · exact .inl hold
    · obtain ⟨hfresh, hmakes⟩ := Request.serial_of_change? hchange hg
      rw [hmakes] at hserial
      exact .inr ⟨hfresh, hserial, hname⟩

theorem Fresh.step {h : Host} (hf : h.Fresh) (request : Request) :
    (h.step request).state.Fresh where
  serial_lt ha := by
    have hserial := (h.step_registry request).2
    obtain hold | ⟨hnew, hnext, -⟩ := action?_of_step ha
    · have := hf.serial_lt hold
      omega
    · omega
  eq_of_serial ha hb hsame := by
    obtain hold | ⟨hnew, -, hname⟩ := action?_of_step ha <;>
      obtain hold' | ⟨hnew', -, hname'⟩ := action?_of_step hb
    · exact hf.eq_of_serial hold hold' hsame
    · have := hf.serial_lt hold
      omega
    · have := hf.serial_lt hold'
      omega
    · exact Option.some.inj (hname.symm.trans hname')

theorem fresh_final (requests : List Request) : (Outcome.final step empty requests).Fresh := by
  induction requests using List.reverseRecOn with
  | nil => exact fresh_empty
  | append_singleton requests request ih =>
    rw [Outcome.final_append]
    exact ih.step request

end Host

end ActionCode
