import BluePill.Host.Scan
import BluePill.Lib.Escapes
import Mathlib.Data.List.TakeWhile

/-! `vRun` of `gdb_main.c`: the command line for the program, decoded into a buffer of 83 bytes. -/
namespace BluePill
open Lib

/-- `sizeof(cmdline)`. -/
abbrev cmdlineSize : ℕ := 83

def storeChar (buf : List UInt8) (i : ℕ) (c : UInt8) : Except Fault (List UInt8) :=
  if i < buf.length then .ok (buf.set i c) else .error .outOfBounds

/-- The loop over `tok`, with `pbuf` as the index `k` into `cmdline`. Where two characters are to
be decoded the call decodes four. -/
def vRunLoop : List UInt8 → ℕ → List UInt8 → Except Fault (List UInt8)
  | [], _, cmdline => .ok cmdline
  | c :: tok, k, cmdline => do
    if c = 0 then return cmdline
    if (cString cmdline).length + 3 ≥ cmdlineSize then return cmdline
    if c = 0x3B then
      let cmdline ← storeChar cmdline k 0x20
      let cmdline ← storeChar cmdline (k + 1) 0
      vRunLoop tok (k + 1) cmdline
    else match tok with
      | [] => return cmdline
      | d :: rest =>
        if isHexDigit c ∧ isHexDigit d then
          let bytes ← unhexify (c :: d :: rest) 2
          let b := bytes.getD 0 0
          let cmdline ← storeChar cmdline k b
          let cmdline ← storeChar cmdline (k + 1) (bytes.getD 1 0)
          if b = 0x20 ∨ b = 0x5C then
            let cmdline ← storeChar cmdline (k + 1) b
            let cmdline ← storeChar cmdline k 0x5C
            let cmdline ← storeChar cmdline (k + 2) 0
            vRunLoop rest (k + 2) cmdline
          else
            let cmdline ← storeChar cmdline (k + 1) 0
            vRunLoop rest (k + 1) cmdline
        else return cmdline

/-- The command line of a packet `vRun`, from what the stack has in `cmdline`. -/
def vRunCmdline (tok stack : List UInt8) : Except Fault (List UInt8) := do
  let tok := if tok.head? = some 0x3B then tok.tail else tok
  let cmdline ← storeChar stack 0 0
  let cmdline ← vRunLoop tok 0 cmdline
  return cString cmdline

/-- `target_set_cmdline`: `strncpy_s` ends the program when the text and its terminator do not fit
79 bytes. -/
def targetSetCmdline (cmdline : List UInt8) : Except Fault (List UInt8) :=
  if cmdline.length < 79 then .ok cmdline else .error .outOfBounds

def cmdlineSpecial (c : UInt8) : Prop := c = 0x20 ∨ c = 0x5C

instance : DecidablePred cmdlineSpecial := fun c => by unfold cmdlineSpecial; infer_instance

/-- A backslash in front of blanks and backslashes. -/
def escapeArgument (argument : List UInt8) : List UInt8 :=
  escape cmdlineSpecial 0x5C id argument

/-- The texts that `tok` stands for, one for each turn of the loop. -/
def cmdlineTexts : List UInt8 → List (List UInt8)
  | [] => []
  | c :: tok =>
    if c = 0 then []
    else if c = 0x3B then [0x20] :: cmdlineTexts tok
    else match tok with
      | [] => []
      | d :: rest =>
        if isHexDigit c ∧ isHexDigit d then
          escapeArgument [unhexDigit c <<< 4 ||| unhexDigit d] :: cmdlineTexts rest
        else []

/-- A character follows the terminator of `tok`. -/
def Terminated (tok : List UInt8) : Prop := ∃ text behind, tok = text ++ 0 :: behind ∧ behind ≠ []

theorem Terminated.tail {c : UInt8} {tok : List UInt8} (h : Terminated (c :: tok)) (hc : c ≠ 0) :
    Terminated tok := by
  obtain ⟨text, behind, heq, hbehind⟩ := h
  cases text with
  | nil => exact absurd (List.cons.inj heq).1 hc
  | cons d text => exact ⟨text, behind, (List.cons.inj heq).2, hbehind⟩

theorem Terminated.two_le {tok : List UInt8} (h : Terminated tok) : 2 ≤ tok.length := by
  obtain ⟨text, behind, rfl, hbehind⟩ := h
  have hpos := List.length_pos_iff.mpr hbehind
  rw [List.length_append, List.length_cons]
  omega

/-- The buffer begins with `text` and a terminator. -/
def HoldsText (text buf : List UInt8) : Prop :=
  ∃ tail, buf = text ++ 0 :: tail ∧ buf.length = cmdlineSize

theorem HoldsText.cString_eq {text buf : List UInt8} (h : HoldsText text buf) :
    cString buf = cString text := by
  obtain ⟨tail, rfl, -⟩ := h
  unfold cString
  rw [List.takeWhile_append]
  split_ifs with hall
  · rw [List.takeWhile_cons_of_neg (by decide), List.append_nil]
    exact ((List.takeWhile_prefix _).eq_of_length hall).symm
  · rfl

theorem storeChar_at (front back : List UInt8) (x y : UInt8) :
    storeChar (front ++ y :: back) front.length x = .ok (front ++ x :: back) := by
  unfold storeChar
  rw [if_pos (by simp), List.set_append_right _ _ le_rfl, Nat.sub_self, List.set_cons_zero]

theorem storeChar_behind {buf : List UInt8} {i : ℕ} (h : buf.length ≤ i) (x : UInt8) :
    storeChar buf i x = .error .outOfBounds := if_neg (not_lt.mpr h)

section
variable {text tail tok us : List UInt8}

/-- A blank for a semicolon. -/
theorem vRunLoop_semicolon (tok : List UInt8) {buf : List UInt8} (h : HoldsText text buf)
    (hroom : (cString text).length < 80) :
    (text.length + 1 < cmdlineSize → ∃ buf', HoldsText (text ++ [0x20]) buf' ∧
      vRunLoop (0x3B :: tok) text.length buf = vRunLoop tok (text.length + 1) buf') ∧
    (cmdlineSize ≤ text.length + 1 →
      vRunLoop (0x3B :: tok) text.length buf = .error .outOfBounds) := by
  have hlen : (cString buf).length + 3 < cmdlineSize := by
    rw [h.cString_eq]
    unfold cmdlineSize
    omega
  obtain ⟨tail, rfl, hsize⟩ := h
  have hno : ¬ (cString (text ++ 0 :: tail)).length + 3 ≥ cmdlineSize := by omega
  have hzero : (0x3B : UInt8) ≠ 0 := by decide
  have hfirst := storeChar_at text tail 0x20 0
  rw [List.length_append, List.length_cons] at hsize
  constructor
  · intro hlt
    obtain ⟨y, tail, rfl⟩ : ∃ y tail', tail = y :: tail' := by
      apply List.exists_cons_of_ne_nil
      rintro rfl
      rw [List.length_nil] at hsize
      omega
    have hsecond := storeChar_at (text ++ [0x20]) tail 0 y
    rw [List.length_append, List.length_singleton, List.append_assoc, List.singleton_append,
      List.append_assoc, List.singleton_append] at hsecond
    refine ⟨text ++ 0x20 :: 0 :: tail, ⟨tail, by simp, ?_⟩, ?_⟩
    · simp only [List.length_append, List.length_cons] at hsize ⊢
      omega
    · rw [vRunLoop.eq_def]
      dsimp only
      rw [if_neg hzero, if_neg hno, if_pos rfl, bind_of_ok hfirst, bind_of_ok hsecond]
  · intro hle
    have hbehind : storeChar (text ++ 0x20 :: tail) (text.length + 1) 0 = .error .outOfBounds := by
      apply storeChar_behind
      rw [List.length_append, List.length_cons]
      omega
    rw [vRunLoop.eq_def]
    dsimp only
    rw [if_neg hzero, if_neg hno, if_pos rfl, bind_of_ok hfirst, bind_of_error hbehind]

theorem storeChar_second (x y z : UInt8) : storeChar (text ++ x :: y :: tail) (text.length + 1) z =
    .ok (text ++ x :: z :: tail) := by
  have hstore := storeChar_at (text ++ [x]) tail z y
  simpa only [List.append_assoc, List.singleton_append, List.length_append,
    List.length_singleton] using hstore

theorem storeChar_third (w x y z : UInt8) :
    storeChar (text ++ w :: x :: y :: tail) (text.length + 2) z =
      .ok (text ++ w :: x :: z :: tail) := by
  have hstore := storeChar_at (text ++ [w, x]) tail z y
  simpa only [List.append_assoc, List.cons_append, List.nil_append, List.length_append,
    List.length_cons, List.length_nil, Nat.zero_add] using hstore

theorem unhexify_two {c d : UInt8} {rest : List UInt8} (h : 2 ≤ rest.length) :
    ∃ b, unhexify (c :: d :: rest) 2 = .ok [unhexDigit c <<< 4 ||| unhexDigit d, b] := by
  obtain ⟨e, f, rest, rfl⟩ : ∃ e f rest', rest = e :: f :: rest' := by
    match rest, h with
    | e :: f :: rest, _ => exact ⟨e, f, rest, rfl⟩
  exact ⟨unhexDigit e <<< 4 ||| unhexDigit f, rfl⟩

/-- A decoded byte, with a backslash where it needs one. The byte behind it is overwritten. -/
theorem vRunLoop_pair {c d : UInt8} {buf rest : List UInt8} (h : HoldsText text buf)
    (hroom : (cString text).length < 80) (hc : isHexDigit c = true) (hd : isHexDigit d = true)
    (hrest : 2 ≤ rest.length) {u : List UInt8}
    (hu : u = escapeArgument [unhexDigit c <<< 4 ||| unhexDigit d]) :
    (text.length + u.length < cmdlineSize → ∃ buf', HoldsText (text ++ u) buf' ∧
      vRunLoop (c :: d :: rest) text.length buf = vRunLoop rest (text.length + u.length) buf') ∧
    (cmdlineSize ≤ text.length + u.length →
      vRunLoop (c :: d :: rest) text.length buf = .error .outOfBounds) := by
  have hlen : (cString buf).length + 3 < cmdlineSize := by
    rw [h.cString_eq]
    unfold cmdlineSize
    omega
  obtain ⟨tail, rfl, hsize⟩ := h
  have hno : ¬ (cString (text ++ 0 :: tail)).length + 3 ≥ cmdlineSize := by omega
  have hzero : c ≠ 0 := isHexDigit_ne hc (by decide)
  have hsemicolon : c ≠ 0x3B := isHexDigit_ne hc (by decide)
  obtain ⟨b₂, hbytes⟩ := unhexify_two (c := c) (d := d) hrest
  obtain ⟨b, hb⟩ : ∃ b, b = unhexDigit c <<< 4 ||| unhexDigit d := ⟨_, rfl⟩
  rw [← hb] at hbytes hu
  have hfirst := storeChar_at text tail b 0
  rw [List.length_append, List.length_cons] at hsize
  have hturn : vRunLoop (c :: d :: rest) text.length (text ++ 0 :: tail) = (do
      let cmdline ← storeChar (text ++ b :: tail) (text.length + 1) b₂
      if b = 0x20 ∨ b = 0x5C then
        let cmdline ← storeChar cmdline (text.length + 1) b
        let cmdline ← storeChar cmdline text.length 0x5C
        let cmdline ← storeChar cmdline (text.length + 2) 0
        vRunLoop rest (text.length + 2) cmdline
      else
        let cmdline ← storeChar cmdline (text.length + 1) 0
        vRunLoop rest (text.length + 1) cmdline) := by
    rw [vRunLoop.eq_def]
    dsimp only
    rw [if_neg hzero, if_neg hno, if_neg hsemicolon, if_pos ⟨hc, hd⟩, bind_of_ok hbytes]
    exact bind_of_ok hfirst
  rw [hturn]
  rcases List.eq_nil_or_concat tail with htail | ⟨front, last, htail⟩
  · -- not even the byte behind the decoded one has room
    have hbehind : storeChar (text ++ b :: tail) (text.length + 1) b₂ = .error .outOfBounds := by
      apply storeChar_behind
      rw [htail, List.length_append, List.length_singleton]
    rw [htail, List.length_nil] at hsize
    constructor
    · intro hlt
      have hpos : 0 < u.length := by
        rw [hu]
        unfold escapeArgument escape
        rw [List.flatMap_singleton]
        split_ifs <;> simp
      omega
    · intro _
      exact bind_of_error hbehind
  · obtain ⟨y, tail, rfl⟩ : ∃ y tail', tail = y :: tail' := by
      apply List.exists_cons_of_ne_nil
      rw [htail]
      simp
    rw [bind_of_ok (storeChar_second b y b₂)]
    rw [List.length_cons] at hsize
    by_cases hescape : b = 0x20 ∨ b = 0x5C
    · have hu₂ : u = [0x5C, b] := by
        rw [hu]
        exact (List.flatMap_singleton _ _).trans (if_pos hescape)
      have hfour : storeChar (text ++ b :: b :: tail) text.length 0x5C =
          .ok (text ++ 0x5C :: b :: tail) := storeChar_at text (b :: tail) 0x5C b
      rw [if_pos hescape, bind_of_ok (storeChar_second b b₂ b), bind_of_ok hfour, hu₂]
      constructor
      · intro hlt
        obtain ⟨z, tail, rfl⟩ : ∃ z tail', tail = z :: tail' := by
          apply List.exists_cons_of_ne_nil
          rintro rfl
          rw [List.length_nil] at hsize
          simp only [List.length_cons, List.length_nil] at hlt
          omega
        refine ⟨text ++ 0x5C :: b :: 0 :: tail, ⟨tail, by simp, ?_⟩, ?_⟩
        · simp only [List.length_append, List.length_cons] at hsize ⊢
          omega
        · rw [bind_of_ok (storeChar_third 0x5C b z 0)]
          rfl
      · intro hle
        apply bind_of_error
        apply storeChar_behind
        simp only [List.length_append, List.length_cons, List.length_nil] at hle ⊢
        omega
    · have hu₁ : u = [b] := by
        rw [hu]
        exact (List.flatMap_singleton _ _).trans (if_neg hescape)
      rw [if_neg hescape, bind_of_ok (storeChar_second b b₂ 0), hu₁]
      constructor
      · intro _
        refine ⟨text ++ b :: 0 :: tail, ⟨tail, by simp, ?_⟩, rfl⟩
        simp only [List.length_append, List.length_cons] at hsize ⊢
        omega
      · intro hle
        rw [List.length_singleton] at hle
        omega

end

theorem mem_cmdlineTexts {u tok : List UInt8} (h : u ∈ cmdlineTexts tok) :
    u = [0] ∨ (0 ∉ u ∧ u.length ≤ 2) := by
  induction tok using cmdlineTexts.induct with
  | case1 => simp [cmdlineTexts] at h
  | case2 tok =>
    rw [cmdlineTexts.eq_def] at h
    dsimp only at h
    rw [if_pos rfl] at h
    exact absurd h List.not_mem_nil
  | case3 tok hne ih =>
    rw [cmdlineTexts.eq_def] at h
    dsimp only at h
    rw [if_neg hne, if_pos rfl] at h
    rcases List.mem_cons.mp h with rfl | h
    · exact .inr ⟨by decide, by decide⟩
    · exact ih h
  | case4 c hzero hsemicolon =>
    rw [cmdlineTexts.eq_def] at h
    dsimp only at h
    rw [if_neg hzero, if_neg hsemicolon] at h
    exact absurd h List.not_mem_nil
  | case5 c hzero hsemicolon d rest hhex ih =>
    rw [cmdlineTexts.eq_def] at h
    dsimp only at h
    rw [if_neg hzero, if_neg hsemicolon, if_pos hhex] at h
    rcases List.mem_cons.mp h with rfl | h
    · obtain ⟨b, hb⟩ : ∃ b, b = unhexDigit c <<< 4 ||| unhexDigit d := ⟨_, rfl⟩
      rw [← hb]
      by_cases hspecial : cmdlineSpecial b
      · have heq : escapeArgument [b] = [0x5C, b] :=
          (List.flatMap_singleton _ _).trans (if_pos hspecial)
        rw [heq]
        right
        rcases hspecial with rfl | rfl
        · exact ⟨by decide, by decide⟩
        · exact ⟨by decide, by decide⟩
      · have heq : escapeArgument [b] = [b] :=
          (List.flatMap_singleton _ _).trans (if_neg hspecial)
        rw [heq]
        by_cases hb0 : b = 0
        · exact .inl (by rw [hb0])
        · exact .inr ⟨by simpa using fun h0 => hb0 h0.symm, by simp⟩
    · exact ih h
  | case6 c hzero hsemicolon d rest hhex =>
    rw [cmdlineTexts.eq_def] at h
    dsimp only at h
    rw [if_neg hzero, if_neg hsemicolon, if_neg hhex] at h
    exact absurd h List.not_mem_nil

section
variable {text tok u buf : List UInt8} {us : List (List UInt8)}

theorem vRunLoop_stop (k : ℕ) (h : cmdlineTexts tok = []) : vRunLoop tok k buf = .ok buf := by
  rw [vRunLoop.eq_def]
  rw [cmdlineTexts.eq_def] at h
  split
  · rfl
  · dsimp only at h
    split_ifs at h ⊢ with hzero hlong hsemicolon
    · rfl
    · rfl
    · split
      · rfl
      · dsimp only at h
        split_ifs at h ⊢
        rfl

theorem vRunLoop_full (k : ℕ) (h : 80 ≤ (cString buf).length) : vRunLoop tok k buf = .ok buf := by
  have hlong : (cString buf).length + 3 ≥ cmdlineSize := by
    unfold cmdlineSize
    omega
  rw [vRunLoop.eq_def]
  split
  · rfl
  · split_ifs <;> rfl

/-- A turn of the loop stores the next text, or leaves the buffer. -/
theorem vRunLoop_turn (hholds : HoldsText text buf) (hterm : Terminated tok)
    (hus : cmdlineTexts tok = u :: us) (hroom : (cString text).length < 80) :
    (text.length + u.length < cmdlineSize → ∃ buf' tok', HoldsText (text ++ u) buf' ∧
      Terminated tok' ∧ cmdlineTexts tok' = us ∧
      vRunLoop tok text.length buf = vRunLoop tok' (text ++ u).length buf') ∧
    (cmdlineSize ≤ text.length + u.length →
      vRunLoop tok text.length buf = .error .outOfBounds) := by
  rw [cmdlineTexts.eq_def] at hus
  split at hus
  · contradiction
  · rename_i c rest
    split_ifs at hus with hzero hsemicolon
    · obtain ⟨rfl, rfl⟩ := List.cons.inj hus
      obtain rfl := hsemicolon
      obtain ⟨hgoes, hleaves⟩ := vRunLoop_semicolon rest hholds hroom
      refine ⟨?_, hleaves⟩
      intro hlt
      obtain ⟨buf', hholds', heq⟩ := hgoes hlt
      rw [List.length_append]
      exact ⟨buf', rest, hholds', hterm.tail hzero, rfl, heq⟩
    · split at hus
      · contradiction
      · rename_i d rest
        split_ifs at hus with hhex
        obtain ⟨rfl, rfl⟩ := List.cons.inj hus
        have hd : d ≠ 0 := isHexDigit_ne hhex.2 (by decide)
        have hrest := (hterm.tail hzero).tail hd
        obtain ⟨hgoes, hleaves⟩ :=
          vRunLoop_pair hholds hroom hhex.1 hhex.2 hrest.two_le rfl
        refine ⟨?_, hleaves⟩
        intro hlt
        obtain ⟨buf', hholds', heq⟩ := hgoes hlt
        rw [List.length_append]
        exact ⟨buf', rest, hholds', hrest, rfl, heq⟩

/-- Behind a terminator that was decoded the length of the text does not grow, and nothing ends the
loop but `tok`. -/
theorem vRunLoop_beyond (hholds : HoldsText text buf) (hterm : Terminated tok)
    (hus : cmdlineTexts tok = us) (hzero : 0 ∈ text) (hroom : (cString text).length < 80) :
    vRunLoop tok text.length buf >>= (fun buf => pure (cString buf)) =
      if cmdlineSize ≤ text.length + us.flatten.length then .error .outOfBounds
      else .ok (cString text) := by
  induction us generalizing text tok buf with
  | nil =>
    have hlt : ¬ cmdlineSize ≤ text.length + ([] : List (List UInt8)).flatten.length := by
      obtain ⟨tail, heq, hsize⟩ := hholds
      have hlen := congrArg List.length heq
      rw [List.length_append, List.length_cons] at hlen
      rw [List.flatten_nil, List.length_nil]
      omega
    rw [bind_of_ok (vRunLoop_stop _ hus), hholds.cString_eq, if_neg hlt]
    rfl
  | cons u us ih =>
    obtain ⟨hgoes, hleaves⟩ := vRunLoop_turn hholds hterm hus hroom
    have hsame : cString (text ++ u) = cString text := by
      unfold cString
      rw [List.takeWhile_append, if_neg]
      intro hall
      have hwhole := (List.takeWhile_prefix _).eq_of_length hall
      rw [List.takeWhile_eq_self_iff] at hwhole
      have hnone := hwhole 0 hzero
      simp at hnone
    rw [List.flatten_cons, List.length_append, ← Nat.add_assoc]
    by_cases hlt : text.length + u.length < cmdlineSize
    · obtain ⟨buf', tok', hholds', hterm', hus', heq⟩ := hgoes hlt
      rw [heq, ih hholds' hterm' hus' (List.mem_append_left u hzero) (by rwa [hsame]), hsame,
        List.length_append]
    · have hbeyond : cmdlineSize ≤ text.length + u.length + us.flatten.length := by omega
      rw [bind_of_error (hleaves (not_lt.mp hlt)), if_pos hbeyond]

end

/-- The texts while the command line has room. -/
def fitTexts : ℕ → List (List UInt8) → List UInt8
  | _, [] => []
  | used, u :: us => if 80 ≤ used then [] else u ++ fitTexts (used + u.length) us

/-- The texts in front of a decoded terminator. -/
def liveTexts (us : List (List UInt8)) : List (List UInt8) := us.takeWhile fun u => u ≠ [0]

/-- A terminator is decoded while the command line has room, and the texts do not fit the buffer. -/
def OverrunsCmdline (used : ℕ) (us : List (List UInt8)) : Prop :=
  used + (liveTexts us).flatten.length < 80 ∧ liveTexts us ≠ us ∧
    cmdlineSize ≤ used + us.flatten.length

instance (used : ℕ) (us : List (List UInt8)) : Decidable (OverrunsCmdline used us) := by
  unfold OverrunsCmdline
  infer_instance

section
variable {text tok buf : List UInt8} {us : List (List UInt8)}

theorem cString_of_notMem (h : 0 ∉ text) : cString text = text := by
  unfold cString
  rw [List.takeWhile_eq_self_iff]
  intro c hc
  apply decide_eq_true
  rintro rfl
  exact h hc

theorem vRunLoop_eq (hholds : HoldsText text buf) (hterm : Terminated tok)
    (hus : cmdlineTexts tok = us) (htext : 0 ∉ text) :
    vRunLoop tok text.length buf >>= (fun buf => pure (cString buf)) =
      if OverrunsCmdline text.length us then .error .outOfBounds
      else .ok (text ++ fitTexts text.length (liveTexts us)) := by
  have hsame : cString text = text := cString_of_notMem htext
  induction us generalizing text tok buf with
  | nil =>
    have hnot : ¬ OverrunsCmdline text.length [] := fun h => h.2.1 rfl
    rw [bind_of_ok (vRunLoop_stop _ hus), hholds.cString_eq, hsame, if_neg hnot]
    exact congrArg Except.ok (List.append_nil text).symm
  | cons u us ih =>
    by_cases hroom : text.length < 80
    · obtain ⟨hgoes, -⟩ := vRunLoop_turn hholds hterm hus (by rwa [hsame])
      have hu : u = [0] ∨ (0 ∉ u ∧ u.length ≤ 2) :=
        mem_cmdlineTexts (hus ▸ List.mem_cons_self)
      have hlt : text.length + u.length < cmdlineSize := by
        unfold cmdlineSize
        rcases hu with rfl | ⟨-, hle⟩
        · rw [List.length_singleton]
          omega
        · omega
      obtain ⟨buf', tok', hholds', hterm', hus', heq⟩ := hgoes hlt
      rw [heq]
      rcases hu with rfl | ⟨hzero, -⟩
      · -- from here on nothing bounds the texts
        have hcut : cString (text ++ [0]) = text := by
          unfold cString
          rw [List.takeWhile_append_of_pos (List.takeWhile_eq_self_iff.mp hsame),
            List.takeWhile_cons_of_neg (by decide), List.append_nil]
        have hlive : liveTexts ([0] :: us) = [] := List.takeWhile_cons_of_neg (by decide)
        have hiff : OverrunsCmdline text.length ([0] :: us) ↔
            cmdlineSize ≤ (text ++ [0]).length + us.flatten.length := by
          unfold OverrunsCmdline
          rw [hlive, List.flatten_cons, List.length_append, List.length_append,
            List.length_singleton, Nat.add_assoc]
          simp [hroom]
        have hbeyond := vRunLoop_beyond hholds' hterm' hus' (by simp) (by rwa [hcut])
        rw [hbeyond, hcut, hlive]
        refine if_congr hiff.symm rfl ?_
        exact congrArg Except.ok (List.append_nil text).symm
      · have hne : u ≠ [0] := by
          rintro rfl
          exact hzero List.mem_cons_self
        have hlive : liveTexts (u :: us) = u :: liveTexts us :=
          List.takeWhile_cons_of_pos (decide_eq_true hne)
        have hiff : OverrunsCmdline text.length (u :: us) ↔
            OverrunsCmdline (text ++ u).length us := by
          unfold OverrunsCmdline
          rw [hlive, List.flatten_cons, List.flatten_cons, List.length_append,
            List.length_append, List.length_append, ← Nat.add_assoc, ← Nat.add_assoc, ne_eq,
            List.cons_inj_right]
        have hfit : fitTexts text.length (u :: liveTexts us) =
            u ++ fitTexts (text ++ u).length (liveTexts us) := by
          rw [fitTexts, if_neg (by omega), List.length_append]
        have htext' : 0 ∉ text ++ u := by
          intro hmem
          rcases List.mem_append.mp hmem with hmem | hmem
          · exact htext hmem
          · exact hzero hmem
        have hrest := ih hholds' hterm' hus' htext' (cString_of_notMem htext')
        rw [hrest, hlive, hfit, List.append_assoc]
        exact if_congr hiff.symm rfl rfl
    · have hfull : 80 ≤ (cString buf).length := by
        rw [hholds.cString_eq, hsame]
        omega
      have hnot : ¬ OverrunsCmdline text.length (u :: us) := by
        rintro ⟨hlt, -⟩
        omega
      have hfit : fitTexts text.length (liveTexts (u :: us)) = [] := by
        cases liveTexts (u :: us) with
        | nil => rfl
        | cons v vs => exact if_pos (by omega)
      rw [bind_of_ok (vRunLoop_full _ hfull), hholds.cString_eq, hsame, if_neg hnot, hfit,
        List.append_nil]
      rfl

/-- What is behind the semicolon in front, if there is one. -/
def behindSemicolon (tok : List UInt8) : List UInt8 :=
  if tok.head? = some 0x3B then tok.tail else tok

theorem vRunCmdline_eq {stack : List UInt8} (hstack : stack.length = cmdlineSize)
    (hterm : Terminated (behindSemicolon tok)) :
    vRunCmdline tok stack = if OverrunsCmdline 0 (cmdlineTexts (behindSemicolon tok)) then
        .error .outOfBounds
      else .ok (fitTexts 0 (liveTexts (cmdlineTexts (behindSemicolon tok)))) := by
  obtain ⟨c, stack, rfl⟩ : ∃ c stack', stack = c :: stack' := by
    apply List.exists_cons_of_ne_nil
    rintro rfl
    contradiction
  have hfirst : storeChar (c :: stack) 0 0 = .ok (0 :: stack) := rfl
  have hholds : HoldsText [] (0 :: stack) := ⟨stack, rfl, hstack⟩
  have hloop := vRunLoop_eq hholds hterm rfl List.not_mem_nil
  unfold vRunCmdline
  rw [bind_of_ok hfirst]
  exact hloop

end

theorem fitTexts_eq (used : ℕ) (us : List (List UInt8)) :
    (used + us.flatten.length < 80 → fitTexts used us = us.flatten) ∧
      (fitTexts used us = us.flatten ∨ 80 ≤ used + (fitTexts used us).length) := by
  induction us generalizing used with
  | nil => exact ⟨fun _ => rfl, .inl rfl⟩
  | cons u us ih =>
    obtain ⟨hfits, hall⟩ := ih (used + u.length)
    rw [fitTexts, List.flatten_cons]
    constructor
    · intro hlt
      rw [List.length_append] at hlt
      rw [if_neg (by omega), hfits (by omega)]
    · by_cases hfull : 80 ≤ used
      · rw [if_pos hfull]
        exact .inr (by omega)
      · rw [if_neg hfull, List.length_append]
        rcases hall with heq | hle
        · exact .inl (by rw [heq])
        · exact .inr (by omega)

/-- Whatever the packet: the server goes on exactly when the texts in front of the first decoded
terminator are shorter than 79 characters, and all of them fit the buffer where there is one; the
command line is then those texts. -/
theorem vRun_ok_iff (tok stack : List UInt8) (hstack : stack.length = cmdlineSize)
    (hterm : Terminated (behindSemicolon tok)) (us : List (List UInt8))
    (hus : cmdlineTexts (behindSemicolon tok) = us) (cmdline : List UInt8) :
    vRunCmdline tok stack >>= targetSetCmdline = .ok cmdline ↔
      cmdline = (liveTexts us).flatten ∧ cmdline.length < 79 ∧
        (liveTexts us = us ∨ us.flatten.length < cmdlineSize) := by
  have hline := vRunCmdline_eq hstack hterm
  obtain ⟨hfits, hall⟩ := fitTexts_eq 0 (liveTexts us)
  rw [hus] at hline
  rw [hline]
  by_cases hover : OverrunsCmdline 0 us
  · rw [if_pos hover]
    obtain ⟨-, hne, hlong⟩ := hover
    constructor
    · intro h
      contradiction
    · rintro ⟨-, -, heq | hshort⟩
      · contradiction
      · omega
  · rw [if_neg hover]
    show targetSetCmdline (fitTexts 0 (liveTexts us)) = _ ↔ _
    unfold targetSetCmdline
    constructor
    · intro h
      split_ifs at h with hshort
      obtain rfl := Except.ok.inj h
      have heq : fitTexts 0 (liveTexts us) = (liveTexts us).flatten := by
        rcases hall with heq | hle
        · exact heq
        · omega
      refine ⟨heq, hshort, ?_⟩
      by_contra hnot
      rw [not_or, not_lt] at hnot
      rw [heq] at hshort
      exact hover ⟨by omega, hnot.1, by omega⟩
    · rintro ⟨rfl, hshort, -⟩
      have heq := hfits (by omega)
      rw [heq, if_pos hshort]

theorem vRun_ok_iff_blank :
    vRunCmdline (ascii ";6120;62" ++ [0, 0]) (List.replicate 83 0) >>= targetSetCmdline =
        .ok (ascii "a\\  b") ↔
      ascii "a\\  b" = (liveTexts (cmdlineTexts (ascii "6120;62" ++ [0, 0]))).flatten ∧
        (ascii "a\\  b").length < 79 ∧
        (liveTexts (cmdlineTexts (ascii "6120;62" ++ [0, 0])) =
            cmdlineTexts (ascii "6120;62" ++ [0, 0]) ∨
          (cmdlineTexts (ascii "6120;62" ++ [0, 0])).flatten.length < cmdlineSize) := by
  have hbehind : behindSemicolon (ascii ";6120;62" ++ [0, 0]) = ascii "6120;62" ++ [0, 0] := by
    decide
  have hterm : Terminated (behindSemicolon (ascii ";6120;62" ++ [0, 0])) :=
    ⟨ascii "6120;62", [0], by rw [hbehind], by simp⟩
  exact vRun_ok_iff _ _ rfl hterm _ (by rw [hbehind]) _

/-- The program's arguments as GDB sends them. -/
def argumentText (args : List (List UInt8)) : List UInt8 := args.flatMap fun a => 0x3B :: hexify a

/-- The command line of a program with these arguments. -/
def commandLine : List (List UInt8) → List UInt8
  | [] => []
  | a :: args => escapeArgument a ++ args.flatMap fun a => 0x20 :: escapeArgument a

@[simp] theorem escapeArgument_nil : escapeArgument [] = [] := rfl

theorem escapeArgument_cons (b : UInt8) (a : List UInt8) :
    escapeArgument (b :: a) = escapeArgument [b] ++ escapeArgument a := by
  unfold escapeArgument escape
  rw [List.flatMap_cons, List.flatMap_singleton]

theorem cmdlineTexts_hexify (a tok : List UInt8) : cmdlineTexts (hexify a ++ tok) =
    a.map (fun b => escapeArgument [b]) ++ cmdlineTexts tok := by
  induction a with
  | nil => rfl
  | cons b a ih =>
    have hbyte := b.toNat_lt
    have hhex : ∀ d < 16, isHexDigit (hexDigit false d) = true := by
      intro d hd
      rw [isHexDigit, hexDigitValue_hexDigit false hd]
      rfl
    have hhi := hhex (b.toNat / 16) (by omega)
    have hlo := hhex (b.toNat % 16) (by omega)
    have hzero : hexDigit false (b.toNat / 16) ≠ 0 := isHexDigit_ne hhi (by decide)
    have hsemicolon : hexDigit false (b.toNat / 16) ≠ 0x3B := isHexDigit_ne hhi (by decide)
    rw [hexify_cons, List.cons_append, List.cons_append, cmdlineTexts.eq_def]
    dsimp only
    rw [if_neg hzero, if_neg hsemicolon, if_pos ⟨hhi, hlo⟩, ih,
      unhexDigit_hexDigit false (by omega), unhexDigit_hexDigit false (by omega), joinDigits]
    rfl

theorem cmdlineTexts_semicolon (tok : List UInt8) :
    cmdlineTexts (0x3B :: tok) = [0x20] :: cmdlineTexts tok := by
  rw [cmdlineTexts.eq_def]
  rfl

theorem map_escape_flatten (a : List UInt8) :
    (a.map fun b => escapeArgument [b]).flatten = escapeArgument a := by
  induction a with
  | nil => rfl
  | cons b a ih => rw [List.map_cons, List.flatten_cons, ih, ← escapeArgument_cons]

/-- The texts of the arguments behind the first. -/
theorem cmdlineTexts_argumentText (args : List (List UInt8)) (behind : List UInt8) :
    (cmdlineTexts (argumentText args ++ 0 :: behind)).flatten =
        args.flatMap (fun a => 0x20 :: escapeArgument a) ∧
      ∀ u ∈ cmdlineTexts (argumentText args ++ 0 :: behind),
        u = [0x20] ∨ ∃ a ∈ args, ∃ b ∈ a, u = escapeArgument [b] := by
  induction args with
  | nil =>
    have hend : cmdlineTexts (0 :: behind) = [] := by
      rw [cmdlineTexts.eq_def]
      rfl
    have hnil : argumentText [] ++ 0 :: behind = 0 :: behind := rfl
    rw [hnil, hend]
    exact ⟨rfl, by simp⟩
  | cons a args ih =>
    obtain ⟨hflatten, hmem⟩ := ih
    have htexts : cmdlineTexts (argumentText (a :: args) ++ 0 :: behind) =
        [0x20] :: (a.map (fun b => escapeArgument [b]) ++
          cmdlineTexts (argumentText args ++ 0 :: behind)) := by
      rw [argumentText, List.flatMap_cons, List.cons_append, List.cons_append,
        cmdlineTexts_semicolon, List.append_assoc, cmdlineTexts_hexify]
      rfl
    rw [htexts]
    constructor
    · rw [List.flatten_cons, List.flatten_append, map_escape_flatten, hflatten,
        List.flatMap_cons]
      rfl
    · intro u hu
      rcases List.mem_cons.mp hu with rfl | hu
      · exact .inl rfl
      · rcases List.mem_append.mp hu with hu | hu
        · obtain ⟨b, hb, rfl⟩ := List.mem_map.mp hu
          exact .inr ⟨a, List.mem_cons_self, b, hb, rfl⟩
        · rcases hmem u hu with rfl | ⟨a', ha', hb⟩
          · exact .inl rfl
          · exact .inr ⟨a', List.mem_cons_of_mem a ha', hb⟩

theorem zero_notMem_escapeArgument {a : List UInt8} (h : 0 ∉ a) : 0 ∉ escapeArgument a := by
  unfold escapeArgument escape
  intro hmem
  obtain ⟨b, hb, hzero⟩ := List.mem_flatMap.mp hmem
  have hb0 : b ≠ 0 := by
    rintro rfl
    exact h hb
  split_ifs at hzero
  · simp [hb0.symm] at hzero
  · simp [hb0.symm] at hzero

theorem escapeArgument_singleton (b : UInt8) :
    escapeArgument [b] = if cmdlineSpecial b then [0x5C, b] else [b] := List.flatMap_singleton _ _

theorem escapeArgument_head_inj {b b' : UInt8} {tail tail' : List UInt8}
    (h : escapeArgument [b] ++ tail = escapeArgument [b'] ++ tail') : b = b' := by
  have hbackslash : cmdlineSpecial 0x5C := .inr rfl
  rw [escapeArgument_singleton, escapeArgument_singleton] at h
  split_ifs at h with hb hb' hb'
  · exact (List.cons.inj (List.cons.inj h).2).1
  · obtain rfl : 0x5C = b' := (List.cons.inj h).1
    exact absurd hbackslash hb'
  · obtain rfl : b = 0x5C := (List.cons.inj h).1
    exact absurd hbackslash hb
  · exact (List.cons.inj h).1

/-- An escaped argument ends where a blank or nothing follows. -/
theorem escapeArgument_append_inj {a a' tail tail' : List UInt8}
    (htail : ∀ c ∈ tail.head?, c = 0x20) (htail' : ∀ c ∈ tail'.head?, c = 0x20)
    (h : escapeArgument a ++ tail = escapeArgument a' ++ tail') : a = a' ∧ tail = tail' := by
  have hhead : ∀ b : UInt8, ∃ c cs, escapeArgument [b] = c :: cs ∧ c ≠ 0x20 := by
    intro b
    by_cases hspecial : cmdlineSpecial b
    · exact ⟨0x5C, [b], (List.flatMap_singleton _ _).trans (if_pos hspecial), by decide⟩
    · exact ⟨b, [], (List.flatMap_singleton _ _).trans (if_neg hspecial),
        fun hblank => hspecial (.inl hblank)⟩
  induction a generalizing a' with
  | nil =>
    cases a' with
    | nil => exact ⟨rfl, h⟩
    | cons b' a' =>
      obtain ⟨c, cs, hc, hne⟩ := hhead b'
      have htext : tail = c :: (cs ++ escapeArgument a' ++ tail') := by
        rw [escapeArgument_cons, hc] at h
        simpa only [List.append_assoc, List.cons_append, escapeArgument_nil,
          List.nil_append] using h
      exact absurd (htail c (by rw [htext]; rfl)) hne
  | cons b a ih =>
    cases a' with
    | nil =>
      obtain ⟨c, cs, hc, hne⟩ := hhead b
      have htext : tail' = c :: (cs ++ escapeArgument a ++ tail) := by
        rw [escapeArgument_cons, hc] at h
        simpa only [List.append_assoc, List.cons_append, escapeArgument_nil,
          List.nil_append] using h.symm
      exact absurd (htail' c (by rw [htext]; rfl)) hne
    | cons b' a' =>
      rw [escapeArgument_cons b a, escapeArgument_cons b' a', List.append_assoc,
        List.append_assoc] at h
      obtain rfl := escapeArgument_head_inj h
      obtain ⟨rfl, heq⟩ := ih (List.append_cancel_left h)
      exact ⟨rfl, heq⟩

theorem commandLine_tail (args : List (List UInt8)) :
    ∀ c ∈ (args.flatMap fun a => 0x20 :: escapeArgument a).head?, c = 0x20 := by
  cases args with
  | nil => simp
  | cons a args =>
    intro c hc
    simpa using hc.symm

theorem commandLine_inj {args args' : List (List UInt8)} (hne : args ≠ []) (hne' : args' ≠ [])
    (h : commandLine args = commandLine args') : args = args' := by
  obtain ⟨a, args, rfl⟩ := List.exists_cons_of_ne_nil hne
  obtain ⟨a', args', rfl⟩ := List.exists_cons_of_ne_nil hne'
  clear hne hne'
  induction args generalizing a a' args' with
  | nil =>
    obtain ⟨rfl, htail⟩ :=
      escapeArgument_append_inj (commandLine_tail []) (commandLine_tail args') h
    cases args' with
    | nil => rfl
    | cons b' args' => simp at htail
  | cons b args ih =>
    obtain ⟨rfl, htail⟩ :=
      escapeArgument_append_inj (commandLine_tail (b :: args)) (commandLine_tail args') h
    cases args' with
    | nil => simp at htail
    | cons b' args' =>
      rw [List.flatMap_cons, List.flatMap_cons, List.cons_append, List.cons_append] at htail
      rw [ih b b' args' (List.cons.inj htail).2]

/-- Arguments without zeros give no text that ends the command line. -/
theorem liveTexts_arguments {a : List UInt8} {args : List (List UInt8)}
    (hzero : ∀ a' ∈ a :: args, 0 ∉ a') (behind : List UInt8) :
    liveTexts (a.map (fun b => escapeArgument [b]) ++
        cmdlineTexts (argumentText args ++ 0 :: behind)) =
      a.map (fun b => escapeArgument [b]) ++
        cmdlineTexts (argumentText args ++ 0 :: behind) := by
  have hescaped : ∀ a' ∈ a :: args, ∀ b ∈ a', [0] ≠ escapeArgument [b] := by
    intro a' ha' b hb heq
    have hb0 : 0 ∉ [b] := by
      intro hmem
      rw [List.mem_singleton.mp hmem] at hzero
      exact hzero a' ha' hb
    exact zero_notMem_escapeArgument hb0 (heq ▸ List.mem_cons_self)
  obtain ⟨-, hmem⟩ := cmdlineTexts_argumentText args behind
  unfold liveTexts
  rw [List.takeWhile_eq_self_iff]
  intro u hu
  apply decide_eq_true
  rintro rfl
  rcases List.mem_append.mp hu with hu | hu
  · obtain ⟨b, hb, heq⟩ := List.mem_map.mp hu
    exact hescaped a List.mem_cons_self b hb heq.symm
  · rcases hmem [0] hu with heq | ⟨a', ha', b, hb, heq⟩
    · simp at heq
    · exact hescaped a' (List.mem_cons_of_mem a ha') b hb heq

/-- Hexadecimal arguments without zeros become a command line that no other arguments have; the
program ends when it is longer than 78 characters. -/
theorem vRun_arguments (args : List (List UInt8)) (hne : args ≠ []) (hzero : ∀ a ∈ args, 0 ∉ a)
    (behind : List UInt8) (hbehind : behind ≠ []) (stack : List UInt8)
    (hstack : stack.length = cmdlineSize) :
    (vRunCmdline (argumentText args ++ 0 :: behind) stack >>= targetSetCmdline =
      if (commandLine args).length < 79 then .ok (commandLine args) else .error .outOfBounds) ∧
    ∀ args', args' ≠ [] → commandLine args' = commandLine args → args' = args := by
  refine ⟨?_, fun args' hne' h => commandLine_inj hne' hne h⟩
  obtain ⟨a, args, rfl⟩ := List.exists_cons_of_ne_nil hne
  obtain ⟨hflatten, -⟩ := cmdlineTexts_argumentText args behind
  have htok : argumentText (a :: args) ++ 0 :: behind =
      0x3B :: (hexify a ++ (argumentText args ++ 0 :: behind)) := by
    rw [argumentText, List.flatMap_cons, List.cons_append, List.cons_append, List.append_assoc]
    rfl
  have hstrip : behindSemicolon (argumentText (a :: args) ++ 0 :: behind) =
      hexify a ++ (argumentText args ++ 0 :: behind) := by
    rw [htok]
    rfl
  have hterm : Terminated (behindSemicolon (argumentText (a :: args) ++ 0 :: behind)) :=
    ⟨hexify a ++ argumentText args, behind, by rw [hstrip, List.append_assoc], hbehind⟩
  have hline := vRunCmdline_eq hstack hterm
  rw [hstrip, cmdlineTexts_hexify] at hline
  obtain ⟨us, hus⟩ : ∃ us, us = a.map (fun b => escapeArgument [b]) ++
      cmdlineTexts (argumentText args ++ 0 :: behind) := ⟨_, rfl⟩
  rw [← hus] at hline
  have hwhole : us.flatten = commandLine (a :: args) := by
    rw [hus, List.flatten_append, map_escape_flatten, hflatten]
    rfl
  have hlive : liveTexts us = us := by
    rw [hus]
    exact liveTexts_arguments hzero behind
  have hnot : ¬ OverrunsCmdline 0 us := fun h => h.2.1 hlive
  obtain ⟨hfits, hall⟩ := fitTexts_eq 0 us
  rw [if_neg hnot, hlive] at hline
  rw [hline]
  show targetSetCmdline (fitTexts 0 us) = _
  unfold targetSetCmdline
  rw [hwhole] at hfits hall
  by_cases hshort : (commandLine (a :: args)).length < 79
  · rw [hfits (by omega), if_pos hshort]
  · have hlong : ¬ (fitTexts 0 us).length < 79 := by
      rcases hall with heq | hle
      · rwa [heq]
      · omega
    rw [if_neg hlong, if_neg hshort]

theorem vRun_arguments_blank :
    (vRunCmdline (argumentText [ascii "a b", ascii "\\"] ++ [0, 0]) (List.replicate 83 0) >>=
      targetSetCmdline =
        if (commandLine [ascii "a b", ascii "\\"]).length < 79 then
          .ok (commandLine [ascii "a b", ascii "\\"])
        else .error .outOfBounds) ∧
    ∀ args', args' ≠ [] → commandLine args' = commandLine [ascii "a b", ascii "\\"] →
      args' = [ascii "a b", ascii "\\"] :=
  vRun_arguments [ascii "a b", ascii "\\"] (by decide) (by decide) [0] (by decide)
    (List.replicate 83 0) rfl

end BluePill
