import DollMachine.Http.Head

/-!
# Reading what a server writes

* `reply_eq`: in whatever bursts the bytes of an answer come, the client gets its status and its
  body.
* `head_cut`: an answer that breaks off in its head is an error, unless all it lacks is the last
  line feed.
-/

namespace DollMachine

namespace Http

variable {h : Head} {f g : Feed Char} {data rest written : List Char} {size len total : Int}

/-! ## Blocks -/

theorem copyBlock_stop (hlen : ¬ (0 < len ∨ len = -1)) :
    copyBlock size len written f = some (written, f) := by
  rw [copyBlock, if_neg fun hc => hlen hc.2]

theorem copyBlock_now (hlen : 0 < len ∨ len = -1) (hnow : f.now ≠ []) :
    copyBlock size len written f =
      copyBlock size (if 0 < len then len - blockSize size len f else len)
        (written ++ (f.take (blockSize size len f)).1) (f.take (blockSize size len f)).2 := by
  rw [copyBlock, if_pos ⟨Feed.connected_of_all (all_ne_nil_of_now hnow), hlen⟩, dif_pos hnow]

theorem copyBlock_wait (hlen : 0 < len ∨ len = -1) (burst : List Char)
    (bursts : List (List Char)) (closes : Bool) :
    copyBlock size len written ⟨[], burst :: bursts, closes⟩ =
      copyBlock size len written ⟨burst, bursts, closes⟩ := by
  rw [copyBlock, if_pos ⟨by simp [Feed.connected], hlen⟩]
  rfl

theorem blockSize_le (hlen : 0 < len) : blockSize size len f ≤ len.toNat := by
  unfold blockSize
  rw [if_pos hlen]
  exact (min_le_left _ _).trans (min_le_right _ _)

/-- A block of known length is copied as a whole, however it comes. -/
theorem copyBlock_eq (size : Int) (written : List Char) (hall : f.all = data ++ rest) :
    ∃ g, g.all = rest ∧ g.closes = f.closes ∧
      copyBlock size data.length written f = some (written ++ data, g) := by
  induction hn : f.size using Nat.strong_induction_on generalizing f data written with
  | _ n ih =>
    subst hn
    by_cases hdata : data = []
    · subst hdata
      refine ⟨f, hall, rfl, ?_⟩
      rw [List.append_nil]
      exact copyBlock_stop (by simp)
    · have hlen : (0 : Int) < data.length := Int.natCast_pos.2 (List.length_pos_iff.2 hdata)
      by_cases hnow : f.now = []
      · obtain ⟨now, later, closes⟩ := f
        obtain rfl := hnow
        cases later with
        | nil => simp [Feed.all, hdata] at hall
        | cons burst bursts =>
          rw [copyBlock_wait (.inl hlen)]
          exact ih _ (Feed.size_wait burst bursts closes) written
            (f := ⟨burst, bursts, closes⟩) hall rfl
      · rw [copyBlock_now (.inl hlen) hnow, if_pos hlen]
        have hk : blockSize size data.length f ≤ data.length := blockSize_le hlen
        obtain ⟨htaken, hrest, hcloses, -, hsize⟩ := Feed.take_eq (blockSize size data.length f) f
        have hsmaller := hsize (blockSize_ne_zero hnow) (all_ne_nil_of_now hnow)
        generalize blockSize size data.length f = k at hk htaken hrest hcloses hsmaller
        rw [hall, List.take_append_of_le_length hk] at htaken
        rw [hall, List.drop_append_of_le_length hk] at hrest
        obtain ⟨g, hg, hgcloses, hcopy⟩ := ih _ hsmaller (written ++ data.take k) hrest rfl
        refine ⟨g, hg, hgcloses.trans hcloses, ?_⟩
        have hleft : (data.length : Int) - k = (data.drop k).length := by
          rw [List.length_drop]
          omega
        rw [htaken, hleft, hcopy, List.append_assoc, List.take_append_drop]

/-- Without a length, what comes until the connection closes is copied. -/
theorem copyBlock_close (size : Int) (written : List Char) (hcloses : f.closes = true) :
    ∃ g, copyBlock size (-1) written f = some (written ++ f.all, g) := by
  induction hn : f.size using Nat.strong_induction_on generalizing f written with
  | _ n ih =>
    subst hn
    by_cases hnow : f.now = []
    · obtain ⟨now, later, closes⟩ := f
      obtain rfl := hnow
      obtain rfl : closes = true := hcloses
      cases later with
      | nil =>
        refine ⟨⟨[], [], true⟩, ?_⟩
        rw [copyBlock, if_neg (by simp [Feed.connected])]
        simp [Feed.all]
      | cons burst bursts =>
        rw [copyBlock_wait (.inr rfl)]
        exact ih _ (Feed.size_wait burst bursts true) written (f := ⟨burst, bursts, true⟩) rfl rfl
    · rw [copyBlock_now (.inr rfl) hnow, if_neg (by decide)]
      obtain ⟨htaken, hrest, hcl, -, hsize⟩ := Feed.take_eq (blockSize size (-1) f) f
      have hsmaller := hsize (blockSize_ne_zero hnow) (all_ne_nil_of_now hnow)
      obtain ⟨g, hcopy⟩ := ih _ hsmaller (written ++ (f.take (blockSize size (-1) f)).1)
        (hcl.trans hcloses) rfl
      refine ⟨g, ?_⟩
      rw [hcopy, htaken, hrest, List.append_assoc, List.take_append_drop]

theorem writeToStreamDataBlock_eq (hall : f.all = data ++ rest) :
    ∃ g : Feed Char, g.all = rest ∧ g.closes = f.closes ∧
      writeToStreamDataBlock data.length f = some ((data.length : Int), data, g) := by
  obtain ⟨g, hg, hcloses, hcopy⟩ := copyBlock_eq data.length [] hall
  refine ⟨g, hg, hcloses, ?_⟩
  rw [writeToStreamDataBlock, hcopy]
  simp

/-! ## Chunks -/

theorem chunkHeader_read {n : Nat} (hn : n < 2 ^ 31)
    (hall : f.all = Numeral.numeral 16 n ++ '\r' :: '\n' :: rest) :
    ¬ (f.readUntil '\n').1.length = 0 ∧ strtol 16 (trim (f.readUntil '\n').1) = n ∧
      (f.readUntil '\n').2.all = rest := by
  have hdigits := fun c => mem_numeral (b := 16) (n := n) (c := c) (by decide) (by decide)
  have hline : '\n' ∉ Numeral.numeral 16 n ++ ['\r'] := by
    refine List.not_mem_append (fun hmem => ?_) (by decide)
    exact absurd (hdigits _ hmem).2.2.1 (by decide)
  rw [List.append_cons] at hall
  obtain ⟨hread, hrest, -⟩ := Feed.readUntil_of_all hall hline
  rw [hread, trim_append_space (by decide), trim_of_forall fun c hc => (hdigits c hc).2.2.1]
  exact ⟨by simp, strtol_numeral (by decide) (by decide) hn, hrest⟩

/-- The last chunk: with no length in the head, the chunks have given it. -/
theorem readChunks_last (len : Int) (written : List Char) (htotal : total ≤ 0)
    (hall : f.all = Numeral.numeral 16 0 ++ '\r' :: '\n' :: rest) :
    readChunks total len len written f = some (len, written) := by
  have hne : f.all ≠ [] := by simp [hall]
  obtain ⟨hline, hzero, -⟩ := chunkHeader_read (by decide) hall
  rw [readChunks, if_neg (by simp [Feed.connected_of_all hne]), dif_neg hline]
  simp only [hzero, Nat.cast_zero, lt_self_iff_false, if_false, htotal, if_true, add_zero]
  simp

theorem readChunks_part {part : List Char} (total size ret : Int) (written : List Char)
    (hne : part ≠ []) (hlength : part.length < 2 ^ 31) (hall : f.all = Body.chunk part ++ rest) :
    ∃ g, g.all = rest ∧ readChunks total size ret written f =
      readChunks total (size + part.length) (ret + part.length) (written ++ part) g := by
  have hfeed : f.all ≠ [] := by simp [hall, Body.chunk]
  have hall' : f.all = Numeral.numeral 16 part.length ++ '\r' :: '\n' ::
      (part ++ ('\r' :: '\n' :: rest)) := by
    simp [hall, Body.chunk]
  obtain ⟨hline, hvalue, hblock⟩ := chunkHeader_read hlength hall'
  obtain ⟨g, hg, -, hcopy⟩ := writeToStreamDataBlock_eq hblock
  obtain ⟨htaken, hrest, -⟩ := Feed.take_eq 2 g
  have hpos : (0 : Int) < part.length := Int.natCast_pos.2 (List.length_pos_iff.2 hne)
  have hok : ¬ (part.length : Int) < 0 := not_lt.2 hpos.le
  rw [hg] at htaken hrest
  have htaken : (g.take 2).1 = ['\r', '\n'] := htaken
  refine ⟨(g.take 2).2, hrest, ?_⟩
  rw [readChunks, if_neg (by simp [Feed.connected_of_all hfeed]), dif_neg hline]
  simp only [hvalue, hpos, if_true]
  split
  · rename_i hnone
    rw [hvalue, hcopy] at hnone
    cases hnone
  · rename_i hsome
    rw [hvalue, hcopy] at hsome
    cases hsome
    rw [if_neg hok, if_pos htaken]

/-- The chunks of a body are put together again. -/
theorem readChunks_eq {parts : List (List Char)} (len : Int) (written : List Char)
    (hparts : ∀ part ∈ parts, part ≠ []) (hlength : parts.flatten.length < 2 ^ 31)
    (htotal : total ≤ 0)
    (hall : f.all = (parts.flatMap Body.chunk ++ "0\r\n\r\n".toList) ++ rest) :
    readChunks total len len written f =
      some (len + parts.flatten.length, written ++ parts.flatten) := by
  induction parts generalizing len written f with
  | nil =>
    have hall : f.all = Numeral.numeral 16 0 ++ '\r' :: '\n' :: ('\r' :: '\n' :: rest) := hall
    simpa using readChunks_last len written htotal hall
  | cons part parts ih =>
    rw [List.forall_mem_cons] at hparts
    rw [List.flatMap_cons, List.append_assoc, List.append_assoc] at hall
    rw [List.flatten_cons, List.length_append] at hlength ⊢
    obtain ⟨g, hg, hread⟩ := readChunks_part total len len written hparts.1
      (by omega) hall
    rw [hread, ih _ _ hparts.2 (by omega) (by rw [hg, List.append_assoc]), List.append_assoc,
      Nat.cast_add, add_assoc]

/-! ## Answers -/

/-- The encoding of a body. -/
def Body.encoding : Body → TransferEncoding
  | .untilClose _ | .length _ => .identity
  | .chunks _ => .chunked

theorem Head.Says.finish {code : Nat} {body : Body} (hs : h.Says code body.framing)
    (hcode : 0 < code) : h.finish = ((code : Int), body.encoding) := by
  have hne : h.returnCode ≠ 0 := by
    rw [hs.returnCode]
    omega
  unfold Head.finish
  rw [hs.transferEncoding, if_pos hne, hs.returnCode]
  cases body <;> rfl

/-- The body of an answer, when its head has been read. -/
theorem getString_eq {code : Nat} {body : Body} (hs : h.Says code body.framing)
    (hb : body.WellFormed) (hall : f.all = body.text ++ rest)
    (hclose : ∀ data, body = .untilClose data → f.closes = true ∧ rest = []) :
    getString h body.encoding f = some body.data := by
  by_cases hconn : f.connected = true
  · unfold getString writeToStream
    rw [if_neg (by simp [hconn])]
    cases body with
    | untilClose data =>
      obtain ⟨hcloses, rfl⟩ := hclose data rfl
      obtain ⟨g, hcopy⟩ := copyBlock_close (-1) [] hcloses
      have hsize : h.size = -1 := hs.size
      simp only [Body.encoding, hsize, writeToStreamDataBlock, hcopy, hall]
      simp [Body.text, Body.data]
    | length data =>
      have hall : f.all = data ++ rest := hall
      obtain ⟨g, -, -, hcopy⟩ := writeToStreamDataBlock_eq hall
      have hsize : h.size = data.length := hs.size
      simp only [Body.encoding, hsize, hcopy]
      rfl
    | chunks parts =>
      have hsize : h.size = -1 := hs.size
      have hread := readChunks_eq 0 [] hb.2 hb.1 (show (-1 : Int) ≤ 0 by decide) hall
      simp only [Body.encoding, hsize, hread]
      rfl
  · have hnil : f.all = [] := by_contra fun hne => hconn (Feed.connected_of_all hne)
    rw [hnil] at hall
    have htext : body.text = [] := (List.append_eq_nil_iff.1 hall.symm).1
    unfold getString writeToStream
    rw [if_pos (by simp [hconn])]
    cases body with
    | untilClose data => exact congrArg some htext.symm
    | length data => exact congrArg some htext.symm
    | chunks parts => simp [Body.text] at htext

theorem errorToString_of_pos {code : Nat} : errorToString code = "" := by
  have hne : ∀ n : Int, n < 0 → (code : Int) ≠ n := fun n hn => by omega
  unfold errorToString
  repeat rw [if_neg (hne _ (by decide))]

/-- The client gets the status of an answer, and its body. -/
theorem receive_eq {r : Response} (hr : r.WellFormed) (hall : f.all = r.text ++ rest)
    (hclose : ∀ data, r.body = .untilClose data → f.closes = true ∧ rest = []) :
    receive f = some ((r.code : Int), r.body.data) := by
  rw [Response.text, List.append_assoc, List.cons_append] at hall
  obtain ⟨h, g, hs, hg, hcloses, hread⟩ := handleHeaderResponse_eq hr hall
  have hbody := getString_eq hs hr.body hg fun data hdata => by
    rw [hcloses]
    exact hclose data hdata
  have hpos : ¬ (r.code : Int) < 0 := by omega
  simp only [receive, hread, hs.finish hr.code.1, hpos, if_false, hbody, Option.map_some]

/-- The error of a connection that brings no more input. -/
def breakOff (f : Feed Char) : Int := if f.closes then connectionLost else readTimeout

/-- Every prefix of a line is a line that says something. -/
def IsSolid (line : List Char) : Prop := '\n' ∉ line ∧ ∃ c cs, line = c :: cs ∧ isspace c = false

theorem IsSolid.trim_ne_nil {line q : List Char} (h : IsSolid line) (hq : q <+: line)
    (hne : q ≠ []) : trim q ≠ [] := by
  obtain ⟨-, c, cs, rfl, hc⟩ := h
  obtain ⟨d, ds, rfl⟩ := List.exists_cons_of_ne_nil hne
  obtain rfl : d = c := (List.cons_prefix_cons.1 hq).1
  rw [trim_cons hc, trimEnd_cons (by simp [hc])]
  exact List.cons_ne_nil _ _

theorem readHead_cut {lines : List (List Char)} (hlines : ∀ line ∈ lines, IsSolid line)
    (hcut : f.all <+: lines.flatMap (· ++ ['\n'])) : (readHead h f).1 = breakOff f := by
  induction lines generalizing h f with
  | nil => exact readHead_end (List.prefix_nil.1 hcut)
  | cons line lines ih =>
    rw [List.forall_mem_cons] at hlines
    rw [List.flatMap_cons, List.append_assoc] at hcut
    -- the input ends within the line, or goes on after it
    have hwithin : f.all <+: line → (readHead h f).1 = breakOff f := fun hq => by
      by_cases hnil : f.all = []
      · exact readHead_end hnil
      · obtain ⟨g, hg, hcloses, hread⟩ := readHead_rest (h := h) hnil
          fun hmem => hlines.1.1 (hq.subset hmem)
        rw [hread, if_neg (hlines.1.trim_ne_nil hq hnil), readHead_end hg, hcloses]
        rfl
    rcases List.prefix_or_prefix_of_prefix hcut (List.prefix_append line _) with hq | ⟨q, hq⟩
    · exact hwithin hq
    · rw [← hq, List.prefix_append_right_inj] at hcut
      cases q with
      | nil => exact hwithin (by simp [← hq])
      | cons c q =>
        obtain ⟨rfl, hrest⟩ : c = '\n' ∧ q <+: lines.flatMap (· ++ ['\n']) :=
          List.cons_prefix_cons.1 hcut
        obtain ⟨g, hg, hcloses, hread⟩ := readHead_line (h := h) hq.symm hlines.1.1
        have htrim := hlines.1.trim_ne_nil (List.prefix_refl _)
          (by obtain ⟨-, c, cs, rfl, -⟩ := hlines.1; simp)
        rw [hread, if_neg htrim, ih hlines.2 (by rw [hg]; exact hrest), breakOff, hcloses]
        rfl

theorem Response.isSolid {r : Response} (hr : r.WellFormed) : ∀ line ∈ r.lines, IsSolid line := by
  intro line hline
  refine ⟨(r.isLine hr line hline).1, ?_⟩
  rcases List.mem_cons.1 hline with rfl | hline
  · exact ⟨'H', _, rfl, by decide⟩
  · obtain ⟨header, hmem, rfl⟩ := List.mem_map.1 hline
    obtain ⟨⟨hne, hchars⟩, -⟩ := r.isHeader hr header hmem
    obtain ⟨c, cs, hname⟩ := List.exists_cons_of_ne_nil hne
    refine ⟨c, cs ++ ':' :: ' ' :: header.2 ++ ['\r'], ?_, (hchars c (by simp [hname])).1⟩
    simp [headerLine, hname]

/-- A head without its last line feed is read as if it were there. -/
theorem handleHeaderResponse_head {r : Response} (hr : r.WellFormed) (hall : f.all = r.head) :
    (handleHeaderResponse f).1 = r.code := by
  have hne : f.all ≠ [] := by simp [hall, Response.head]
  obtain ⟨g, hg, -, hread⟩ := readHead_lines (h := .start) (r.isLine hr) hall
  obtain ⟨g', -, -, hread'⟩ := readHead_rest (f := g) (h := Head.start.read r.lines)
    (by simp [hg]) (by rw [hg]; decide)
  rw [handleHeaderResponse, if_neg (by simp [Feed.connected_of_all hne]), hread, hread', hg,
    if_pos (by decide)]
  exact congrArg Prod.fst ((r.says_read hr).finish hr.code.1)

theorem breakOff_neg (f : Feed Char) : breakOff f < 0 := by
  unfold breakOff
  split_ifs <;> decide

/-- Wherever an answer breaks off: the client finds its status, or an error. -/
theorem code_of_prefix {r : Response} (hr : r.WellFormed) (hcut : f.all <+: r.text) :
    (handleHeaderResponse f).1 = r.code ∨ (handleHeaderResponse f).1 < 0 := by
  by_cases hconn : f.connected = true
  · have hentry : handleHeaderResponse f = readHead .start f := by
      rw [handleHeaderResponse, if_neg (by simp [hconn])]
    rcases List.prefix_or_prefix_of_prefix hcut (List.prefix_append r.head _) with hq | ⟨q, hq⟩
    · rcases List.prefix_concat_iff.1 hq with hall | hq
      · exact .inl (handleHeaderResponse_head hr hall)
      · rw [hentry, readHead_cut (r.isSolid hr) hq]
        exact .inr (breakOff_neg f)
    · rw [← hq, Response.text, List.prefix_append_right_inj] at hcut
      cases q with
      | nil => exact .inl (handleHeaderResponse_head hr (by simpa using hq.symm))
      | cons c q =>
        obtain rfl : c = '\n' := (List.cons_prefix_cons.1 hcut).1
        obtain ⟨h, g, hs, -, -, hread⟩ := handleHeaderResponse_eq hr hq.symm
        rw [hread]
        exact .inl (congrArg Prod.fst (hs.finish hr.code.1))
  · rw [handleHeaderResponse, if_pos hconn]
    exact .inr (show notConnected < 0 by decide)

theorem receive_code {r : Int × List Char} (h : receive f = some r) :
    r.1 = (handleHeaderResponse f).1 := by
  unfold receive at h
  dsimp only at h
  split_ifs at h with hneg
  · cases h
    rfl
  · obtain ⟨result, -, rfl⟩ := Option.map_eq_some_iff.1 h
    rfl

end Http

end DollMachine
