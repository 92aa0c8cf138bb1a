import ActionCode.Proofs.Host.Serial
import ActionCode.Proofs.Name.Text

namespace ActionCode

namespace Registry

variable {κ : Type}

theorem wellFormed_of_mem_names {changes : List (Change κ)} {k : Name}
    (hk : k ∈ (after changes).names) : k.WellFormed :=
  ((isSome_action?_after_iff changes k).mp (mem_names_iff.mp hk)).1

theorem parse_text_iff_of_mem_names {changes : List (Change κ)} {k : Name}
    (hk : k ∈ (after changes).names) : Name.parse k.text = .ok k ↔ k.Separable :=
  Name.parse_text_iff.trans (and_iff_right (wellFormed_of_mem_names hk))

theorem eq_of_text_eq_of_mem_names {changes : List (Change κ)} {k l : Name}
    (hk : k ∈ (after changes).names) (hl : l ∈ (after changes).names) (hksep : k.Separable)
    (hlsep : l.Separable) (htext : k.text = l.text) : k = l :=
  Name.eq_of_text_eq ⟨wellFormed_of_mem_names hk, hksep⟩ ⟨wellFormed_of_mem_names hl, hlsep⟩ htext

end Registry

namespace Host

theorem step_callText_of_parse {h : Host} {text : String} {name : Name}
    (hparse : Name.parse text = .ok name) : h.step (.callText text) = h.step (.call name) := by
  simp [Host.step, hparse]

/-- A text that is read as another name does not run the action of its own. -/
theorem Fresh.eq_of_action? {h : Host} (hf : h.Fresh) {k m : Name}
    (hk : k ∈ h.registry.names) (hm : h.registry.action? m = h.registry.action? k) : m = k := by
  obtain ⟨a, ha⟩ := Option.isSome_iff_exists.mp (Registry.mem_names_iff.mp hk)
  exact hf.eq_of_serial (hm.trans ha) ha rfl

theorem action?_parse_text_iff {h : Host} (hf : h.Fresh) {k : Name} (hk : k ∈ h.registry.names)
    (hwell : k.WellFormed) :
    (∃ m, Name.parse k.text = .ok m ∧ h.registry.action? m = h.registry.action? k) ↔
      k.Separable := by
  constructor
  · rintro ⟨m, hparse, haction⟩
    obtain rfl := hf.eq_of_action? hk haction
    exact (Name.parse_text_iff.mp hparse).2
  · exact fun hseparable => ⟨k, Name.parse_text_iff.mpr ⟨hwell, hseparable⟩, rfl⟩

/-- The text of a registered name reaches the action under that name exactly if
the name can be told apart: its member holds no `::` and does not begin with a
colon. Two such names do not share a text. -/
theorem text_reaches_action_iff (requests : List Request) :
    let h := Outcome.final step empty requests
    (∀ k ∈ h.registry.names,
      ((∃ m, Name.parse k.text = .ok m ∧ h.registry.action? m = h.registry.action? k) ↔
        k.Separable) ∧
      (k.Separable → h.step (.callText k.text) = h.step (.call k))) ∧
    ∀ k ∈ h.registry.names, ∀ l ∈ h.registry.names, k.Separable → l.Separable →
      k.text = l.text → k = l := by
  intro h
  have hregistry : h.registry = .after (changes 0 requests) := final_registry empty requests
  have hfresh : h.Fresh := fresh_final requests
  rw [hregistry]
  refine ⟨fun k hk => ⟨?_, fun hseparable => ?_⟩, fun k hk l hl hksep hlsep => ?_⟩
  · rw [← hregistry]
    exact action?_parse_text_iff hfresh (hregistry ▸ hk) (Registry.wellFormed_of_mem_names hk)
  · exact step_callText_of_parse ((Registry.parse_text_iff_of_mem_names hk).mpr hseparable)
  · exact Registry.eq_of_text_eq_of_mem_names hk hl hksep hlsep

/-- Two members without `::` in them, and one text for both names: it is read as
the second of them, also where only the first is registered. -/
theorem text_reaches_other_action :
    let first := Request.registerGetter "A" ":b" 1 [.push 2]
    let second := Request.registerGetter "A:" "b" 1 [.push 1]
    let one := Outcome.final step empty [first]
    let two := Outcome.final step empty [first, second]
    let k := Name.getter "A" ":b"
    let l := Name.getter "A:" "b"
    (k ∈ two.registry.names ∧ l ∈ two.registry.names ∧ k ≠ l ∧ k.text = l.text) ∧
      (two.step (.call k)).state.stack = [2] ∧ (two.step (.callText k.text)).state.stack = [1] ∧
      (one.step (.call k)).answer = .ok .done ∧
      (one.step (.callText k.text)).answer = .error (.action (.notRegistered l)) := by
  decide

end Host

end ActionCode
