import KernelFusion.Proofs.ImagePrefix

/-!
# Verdicts on headers

A header consists of four magic bytes and a version. Both are looked at only after everything behind
the magic bytes has been read with this version's layout. So wrong magic bytes and other versions
are reported exactly if a version and modules of this layout follow. Otherwise reading them fails
first, and that failure is reported in place of the verdict, whatever the header says: an image of
another version whose modules are missing or cut off counts as an image that ends too early.
-/

namespace KernelFusion.Image

section Combine

variable {α β : Type} {get : Reader α} {bytes left : Bytes} {a : α}

/-- Reading on after an answer. -/
theorem bind_answer {next : α → Reader β} (h : get bytes = .ok (a, left)) :
    (get >>= next) bytes = next a left := by
  have hrun : (get >>= next) bytes = (get bytes >>= fun r => next r.1 r.2) := rfl
  rw [hrun, h]
  rfl

/-- Computing with an answer. -/
theorem map_answer (f : α → β) :
    (get >>= fun a => pure (f a)) bytes = (get bytes).map (fun r => (f r.1, r.2)) := by
  have hrun : (get >>= fun a => pure (f a)) bytes =
      (get bytes >>= fun r => .ok (f r.1, r.2)) := rfl
  rw [hrun]
  rcases get bytes with e | r <;> rfl

/-- Bytes that are used up by a value are bytes for that value. -/
theorem Steady.reads (hget : Steady get) (h : get bytes = .ok (a, [])) : Reads get bytes a := by
  intro rest
  rcases hget bytes rest with hout | hsame
  · rw [h] at hout
    cases hout
  · rw [hsame, h]
    rfl

end Combine

/-- Read what stands behind the magic bytes: the version and the modules. -/
def body : Reader (UInt32 × List Module) := do return (← uint32, ← list module)

/-- The bytes start with a version and modules, whatever the version is. -/
def Holds (rest : Bytes) (v : UInt32) (ms : List Module) : Prop :=
  ∃ left, body rest = .ok ((v, ms), left)

theorem steady_body : Steady body := steady_uint32.bind (fun _ => (steady_list steady_module).map)

/-- The first four bytes are set aside before the rest is read. -/
theorem image_append {front : Bytes} (h : front.length = 4) (rest : Bytes) :
    image (front ++ rest) = (body rest).map (fun r => ((front, r.1), r.2)) := by
  have htake : take 4 (front ++ rest) = .ok (front, rest) := h ▸ reads_take front rest
  calc image (front ++ rest)
      = (take 4 >>= fun m => body >>= fun r => pure (m, r)) (front ++ rest) := by
        simp only [image, body, bind_assoc, pure_bind]
    _ = (body >>= fun r => pure (front, r)) rest := bind_answer htake
    _ = (body rest).map (fun r => ((front, r.1), r.2)) := map_answer (fun r => (front, r))

/-- A version and the bytes of modules are a version and modules. -/
theorem reads_body {number : Bytes} {v : UInt32} (h : uint32 number = .ok (v, [])) {b : Bundle}
    (hb : ∀ n ∈ b.lengths, n < 2 ^ 64) :
    Reads body (number ++ putList putModule b.modules) (v, b.modules) := by
  simp only [Bundle.lengths, List.forall_mem_cons, List.forall_mem_flatMap] at hb
  obtain ⟨hcount, hmodules⟩ := hb
  exact (steady_uint32.reads h).bind
    (reads_list hcount (fun m hm => reads_module (hmodules m hm))).map

end KernelFusion.Image

namespace KernelFusion.Bundle

open Image

/-- The header is judged by what follows it. -/
theorem ofImage_append {front : Bytes} (h : front.length = 4) (rest : Bytes) :
    ofImage (front ++ rest) =
      match body rest with
      | .error fault => .error (.image fault)
      | .ok ((v, ms), _) =>
        if front ≠ magic then .error .invalidMagic
        else if v ≠ version then .error (.unsupportedVersion v)
        else .ok ⟨ms⟩ := by
  rw [ofImage, image_append h]
  rcases body rest with fault | ⟨⟨v, ms⟩, left⟩ <;> rfl

section Verdicts

variable {front : Bytes} (h : front.length = 4) (rest : Bytes)
include h

/-- Other magic bytes are reported exactly if a version and modules follow. -/
theorem ofImage_eq_invalidMagic_iff :
    ofImage (front ++ rest) = .error .invalidMagic ↔
      front ≠ magic ∧ ∃ v ms, Holds rest v ms := by
  rw [ofImage_append h]
  unfold Holds
  rcases body rest with fault | ⟨⟨v, ms⟩, left⟩
  · simp
  · by_cases hmagic : front = magic
    · simp only [hmagic, ne_eq, not_true_eq_false, if_false, false_and, iff_false]
      split <;> simp
    · simp [hmagic]

/-- Another version is reported exactly if it stands behind the magic bytes and modules follow. -/
theorem ofImage_eq_unsupportedVersion_iff (v : UInt32) :
    ofImage (front ++ rest) = .error (.unsupportedVersion v) ↔
      front = magic ∧ v ≠ version ∧ ∃ ms, Holds rest v ms := by
  rw [ofImage_append h]
  unfold Holds
  rcases body rest with fault | ⟨⟨u, ms⟩, left⟩
  · simp
  · by_cases hmagic : front = magic
    · by_cases hversion : u = version
      · simp only [hmagic, hversion, ne_eq, not_true_eq_false, if_false, reduceCtorEq, true_and,
          false_iff, not_and, not_exists]
        rintro hv ms' left' heq
        cases heq
        exact hv rfl
      · simp only [hmagic, hversion, ne_eq, not_true_eq_false, not_false_eq_true, if_false, if_true,
          Except.error.injEq, BundleError.unsupportedVersion.injEq, Except.ok.injEq, Prod.mk.injEq,
          true_and]
        constructor
        · rintro rfl
          exact ⟨hversion, ms, left, ⟨rfl, rfl⟩, rfl⟩
        · rintro ⟨-, _, _, ⟨rfl, -⟩, -⟩
          rfl
    · simp [hmagic]

/-- What follows the header is at fault exactly if it cannot be read. -/
theorem ofImage_eq_image_iff (fault : ImageFault) :
    ofImage (front ++ rest) = .error (.image fault) ↔ body rest = .error fault := by
  rw [ofImage_append h]
  rcases body rest with fault' | ⟨⟨v, ms⟩, left⟩
  · simp
  · simp only [reduceCtorEq, iff_false]
    split
    · simp
    · split <;> simp

end Verdicts

/-- Behind the magic bytes, bytes are taken for an image. -/
theorem decode_magic_append (rest : Bytes) : decode (magic ++ rest) = ofImage (magic ++ rest) :=
  if_pos (List.isPrefixOf_iff_prefix.mpr (List.prefix_append magic rest))

/-- The verdict on a header. Four wrong magic bytes are reported, and so is another version behind
the right ones, exactly if a version and modules can be read behind the magic bytes; if they cannot,
that fault is reported. So the header is judged when it stands in front of all the bytes of some
modules, whatever follows them, and never when some of these bytes are missing. -/
theorem header_verdict {front : Bytes} (h : front.length = 4) :
    (∀ rest,
      (ofImage (front ++ rest) = .error .invalidMagic ↔
        front ≠ magic ∧ ∃ v ms, Holds rest v ms) ∧
      (∀ v, ofImage (front ++ rest) = .error (.unsupportedVersion v) ↔
        front = magic ∧ v ≠ version ∧ ∃ ms, Holds rest v ms) ∧
      (∀ fault, ofImage (front ++ rest) = .error (.image fault) ↔ body rest = .error fault) ∧
      (front = magic → decode (front ++ rest) = ofImage (front ++ rest))) ∧
    ∀ number v, uint32 number = .ok (v, []) → ∀ b : Bundle, (∀ n ∈ b.lengths, n < 2 ^ 64) →
      (∀ more, ofImage (front ++ (number ++ putList putModule b.modules ++ more)) =
        if front ≠ magic then .error .invalidMagic
        else if v ≠ version then .error (.unsupportedVersion v)
        else .ok b) ∧
      ∀ cut, cut <+: putList putModule b.modules → cut ≠ putList putModule b.modules →
        ofImage (front ++ (number ++ cut)) = .error (.image .unexpectedEnd) := by
  refine ⟨fun rest => ⟨ofImage_eq_invalidMagic_iff h rest, ofImage_eq_unsupportedVersion_iff h rest,
    ofImage_eq_image_iff h rest, ?_⟩, fun number v hnumber b hb => ⟨fun more => ?_, ?_⟩⟩
  · rintro rfl
    exact decode_magic_append rest
  · rw [ofImage_append h, reads_body hnumber hb more]
  · intro cut hcut hne
    have hfront : number ++ cut <+: number ++ putList putModule b.modules :=
      (List.prefix_append_right_inj number).mpr hcut
    have hout := (reads_body hnumber hb).runs_out steady_body hfront
      (fun he => hne (List.append_cancel_left he))
    exact (ofImage_eq_image_iff h _ _).mpr hout

/-- In front of the modules of the extreme values, other magic bytes and version 2 are reported; in
front of all but a byte of them, neither is. -/
theorem header_verdict_extremes :
    let modules := putList putModule Samples.extremes.modules
    (∀ n ∈ Samples.extremes.lengths, n < 2 ^ 64) ∧
      ofImage ([0x58, 0x58, 0x58, 0x58] ++ ([2] ++ modules ++ [0xff])) = .error .invalidMagic ∧
      ofImage (magic ++ ([2] ++ modules ++ [0xff])) = .error (.unsupportedVersion 2) ∧
      ofImage (magic ++ ([2] ++ modules.dropLast)) = .error (.image .unexpectedEnd) ∧
      decode (magic ++ ([2] ++ modules.dropLast)) = .error (.image .unexpectedEnd) := by
  intro modules
  have hlengths : ∀ n ∈ Samples.extremes.lengths, n < 2 ^ 64 := by decide
  have hshorter : modules.dropLast ≠ modules := by decide +kernel
  have hother := (@header_verdict [0x58, 0x58, 0x58, 0x58] rfl).2 [2] 2 rfl _ hlengths
  have hmagic := @header_verdict magic rfl
  obtain ⟨hwhole, hcut⟩ := hmagic.2 [2] 2 rfl _ hlengths
  have hout := hcut _ (List.dropLast_prefix _) hshorter
  exact ⟨hlengths, hother.1 [0xff], hwhole [0xff], hout, ((hmagic.1 _).2.2.2 rfl).trans hout⟩

/-- A header alone is not judged: neither four other bytes nor the magic bytes and another version
are reported if nothing follows them. -/
theorem header_not_judged :
    ¬ (∀ front rest, front.length = 4 → front ≠ magic →
        ofImage (front ++ rest) = .error .invalidMagic) ∧
      ¬ (∀ number v rest, uint32 number = .ok (v, []) → v ≠ version →
        ofImage (magic ++ (number ++ rest)) = .error (.unsupportedVersion v)) ∧
      ¬ (∀ number v rest, uint32 number = .ok (v, []) → v ≠ version →
        decode (magic ++ (number ++ rest)) = .error (.unsupportedVersion v)) := by
  have hother : ofImage ([0x58, 0x58, 0x58, 0x58] ++ []) = .error (.image .unexpectedEnd) := rfl
  have hversion : ofImage (magic ++ ([2] ++ [])) = .error (.image .unexpectedEnd) := rfl
  refine ⟨fun hall => ?_, fun hall => ?_, fun hall => ?_⟩
  · have hreported := hall [0x58, 0x58, 0x58, 0x58] [] rfl (by decide)
    rw [hother] at hreported
    cases hreported
  · have hreported := hall [2] 2 [] rfl (by decide)
    rw [hversion] at hreported
    cases hreported
  · have hreported := hall [2] 2 [] rfl (by decide)
    rw [decode_magic_append, hversion] at hreported
    cases hreported

end KernelFusion.Bundle
