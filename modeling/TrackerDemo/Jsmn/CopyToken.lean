import TrackerDemo.Jsmn.Refinement

/-!
# Copying the text of a token

Both callers of jsmn copy a token out of the text with
`strncpy(str, &text[tok.start], length); str[length] = '\0'`, where `length` is
`tok.end - tok.start`. The token may be one that the call did not fill.

Results:
* `copyToken_of_matches`: a filled string or primitive token gives its lexeme's
  text.
* `copyToken_isSome`: the token of an earlier text is copied from a memory as long.
-/

namespace TrackerDemo.Jsmn

open TrackerDemo.CString

/-- The C string in `str` after the copy, for an array `str` of `size` bytes.
    `none` when the copy leaves `str` or the memory. -/
def copyToken (size : ℕ) (memory : Bytes) (tok : JsmnTok) : Option Bytes :=
  let length := tok.stop - tok.start
  if 0 ≤ tok.start ∧ 0 ≤ length ∧ length < size ∧
      (0 ∈ memory.drop tok.start.toNat ∨ tok.stop ≤ memory.length) then
    some ((cString (memory.drop tok.start.toNat)).take length.toNat)
  else none

/-- A string or primitive token copies the text of its lexeme. -/
theorem copyToken_of_matches (size : ℕ) {memory : Bytes} {tok : JsmnTok} {l : Lexeme}
    (h : Matches (cString memory) tok l) (hk : l.kind = .string ∨ l.kind = .primitive) :
    copyToken size memory tok = if l.text.length < size then some l.text else none := by
  obtain ⟨a, b, hab, hb, hstart, hstop, htext⟩ := h.position hk
  have hlen : (cString memory).length ≤ memory.length := (List.takeWhile_prefix _).length_le
  have hcopy : (cString (memory.drop a)).take (b - a) = slice (cString memory) a b := by
    rw [cString_drop memory (by omega)]
    rfl
  have hsub : ((b : ℤ) - a).toNat = b - a := by omega
  have hsize : (b : ℤ) - a < size ↔ b - a < size := by omega
  unfold copyToken
  rw [hstart, hstop, htext, length_slice hb]
  dsimp only
  by_cases hlt : b - a < size
  · rw [if_pos hlt, if_pos ⟨by omega, by omega, hsize.2 hlt, .inr (by omega)⟩, hsub,
      Int.toNat_natCast, hcopy]
  · rw [if_neg hlt, if_neg fun hc => hlt (hsize.1 hc.2.2.1)]

/-- The token of an earlier text is copied out of any memory that is as long. -/
theorem copyToken_isSome {size : ℕ} {js memory : Bytes} {tok : JsmnTok} {l : Lexeme}
    (h : Matches js tok l) (hk : l.kind = .string ∨ l.kind = .primitive) (hsize : js.length < size)
    (hmem : js.length ≤ memory.length) : (copyToken size memory tok).isSome := by
  obtain ⟨a, b, hab, hb, hstart, hstop, -⟩ := h.position hk
  unfold copyToken
  rw [hstart, hstop, if_pos ⟨by omega, by omega, by omega, .inr (by omega)⟩]
  rfl

end TrackerDemo.Jsmn
