import Tapsmith.Http.Head

namespace Tapsmith.Http

open Lib Lib.Text

/-!
# Status lines

The status line the proxy writes and reads: `HTTP/1.1 <status> <reason>`.

* `parseStatusCode_statusLine` — the status is read back from it, whatever follows.
-/

/-- The status line, without its CRLF. -/
def statusLine (status : ℤ) (reason : Bytes) : Bytes :=
  bytes "HTTP/1.1 " ++ Utf8.encode (i32ToString status) ++ 32 :: reason

theorem i32ToString_ascii (status : ℤ) : ∀ c ∈ i32ToString status, c.toNat < 0x80 := by
  intro c hc
  obtain rfl | hd := i32ToString_chars hc
  · decide
  · omega

theorem i32ToString_not_whitespace {status : ℤ} :
    ∀ c ∈ i32ToString status, isWhitespace c = false := by
  intro c hc
  obtain rfl | hd := i32ToString_chars hc
  · decide
  · simp only [isWhitespace, Bool.or_eq_false_iff, Bool.and_eq_false_iff,
      decide_eq_false_iff_not, beq_eq_false_iff_ne]
    omega

theorem statusLine_oneLine {status : ℤ} {reason : Bytes} (h : OneLine reason) :
    OneLine (statusLine status reason) := by
  have hversion : OneLine (bytes "HTTP/1.1 ") := by decide
  have hstatus : OneLine (Utf8.encode (i32ToString status)) := by
    apply oneLine_encode
    intro c hc
    rcases i32ToString_chars hc with rfl | hd
    · decide
    · constructor <;> rintro rfl <;> revert hd <;> decide
  intro b hb
  simp only [statusLine, List.mem_append, List.mem_cons] at hb
  rcases hb with (hv | hd) | rfl | hr
  · exact hversion b hv
  · exact hstatus b hd
  · decide
  · exact h b hr

/-- **The status is read back**, whatever follows the status line. -/
theorem parseStatusCode_statusLine {status : ℤ} (hlo : -(2 ^ 31) ≤ status)
    (hhi : status < 2 ^ 31) (rest : Bytes) :
    parseStatusCode (bytes "HTTP/1.1 " ++ Utf8.encode (i32ToString status) ++ 32 :: rest)
      = status := by
  have hascii := i32ToString_ascii status
  have hlen : (bytes "HTTP/1.1 " ++ Utf8.encode (i32ToString status)).length ≤ 20 := by
    rw [List.length_append, Utf8.encode_ascii hascii, List.length_map]
    have := length_i32ToString hlo hhi
    have : (bytes "HTTP/1.1 ").length = 9 := by decide
    omega
  obtain ⟨left, hleft⟩ : ∃ left, (bytes "HTTP/1.1 " ++ Utf8.encode (i32ToString status)
      ++ 32 :: rest).take 256 = bytes "HTTP/1.1 " ++ Utf8.encode (i32ToString status) ++ 32 :: left := by
    rw [List.take_append, List.take_of_length_le (by omega)]
    obtain ⟨k, hk⟩ : ∃ k, 256 - (bytes "HTTP/1.1 " ++ Utf8.encode (i32ToString status)).length
        = k + 1 := ⟨255 - (bytes "HTTP/1.1 " ++ Utf8.encode (i32ToString status)).length, by omega⟩
    rw [hk, List.take_succ_cons]
    exact ⟨_, rfl⟩
  have hdecode : Utf8.fromUtf8Lossy (bytes "HTTP/1.1 " ++ Utf8.encode (i32ToString status)
      ++ 32 :: left) = ("HTTP/1.1".toList ++ ' ' :: i32ToString status)
        ++ ' ' :: Utf8.fromUtf8Lossy left := by
    rw [bytes, ← Utf8.encode_append, Utf8.fromUtf8Lossy_encode_append,
      Utf8.fromUtf8Lossy_cons_ascii (by decide)]
    simp
  have hnl : '\n' ∉ "HTTP/1.1".toList ++ ' ' :: i32ToString status := by
    intro hm
    have hws : isWhitespace '\n' = true := by decide
    rcases List.mem_append.mp hm with hv | hd
    · exact absurd hv (by decide)
    · rcases List.mem_cons.mp hd with heq | hd
      · exact absurd heq (by decide)
      · rw [i32ToString_not_whitespace _ hd] at hws
        cases hws
  obtain ⟨t, ht⟩ := lines_headD hnl (Utf8.fromUtf8Lossy left)
  rw [parseStatusCode, hleft, hdecode, ht, List.append_assoc, List.cons_append,
    splitWhitespace_cons (by decide) (by decide) (by decide),
    splitWhitespace_cons (i32ToString_ne_nil status) i32ToString_not_whitespace (by decide)]
  dsimp only
  rw [parseI32_i32ToString hlo hhi, Option.getD_some]

end Tapsmith.Http
