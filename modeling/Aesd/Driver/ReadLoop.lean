import Aesd.Lib.Drain
import Aesd.Driver.Ownership

/-!
# Reading the device to its end

* `ReadLoop K s counts p` : reads one after the other from position `p`, the `i`-th for `counts i` bytes, with nothing
  written in between and every copy to user space successful;
* `ReadLoop.drains` : such a loop drains the content of the device;
* `read_loop_delivers_content` : it ends, whatever it asks for, and has then delivered the content from `p` on.
-/

namespace Aesd.Driver
open Lib

variable {K : Kernel} {s : AesdDev} {items : List AesdBufferEntry} {counts : Nat → Nat} {p : Nat}

/-- The positions the calls are made at and what they return. -/
structure ReadLoop (K : Kernel) (s : AesdDev) (counts : Nat → Nat) (p : Nat) where
  fpos : Nat → Nat
  ret : Nat → ReadRet
  start : fpos 0 = p
  call : ∀ i, aesdRead K s (fpos i) (counts i) {} = .ok (ret i)
  next : ∀ i, fpos (i + 1) = (ret i).fpos

namespace ReadLoop

def delivered (l : ReadLoop K s counts p) (n : Nat) : List Byte := Drains.taken (fun i => (l.ret i).data) n

/-- Call `i` delivers some of the bytes it asks for and moves the position behind them. -/
def Advances (l : ReadLoop K s counts p) (i : Nat) : Prop :=
  1 ≤ (l.ret i).result ∧ (l.ret i).result ≤ counts i ∧ (l.ret i).result = (l.ret i).data.length ∧
    (l.fpos (i + 1) : Int) = l.fpos i + (l.ret i).result

/-- Call `i` finds the end of file. -/
def AtEnd (l : ReadLoop K s counts p) (i : Nat) : Prop :=
  (l.ret i).result = 0 ∧ (l.ret i).data = [] ∧ l.fpos (i + 1) = l.fpos i

theorem nonempty (h : Inv K s items) (counts : Nat → Nat) (p : Nat) : Nonempty (ReadLoop K s counts p) := by
  choose ret hret using fun fpos count => aesdRead_total h fpos count {}
  let fpos : Nat → Nat := fun i => i.rec p fun i q => (ret q (counts i)).fpos
  exact ⟨⟨fpos, fun i => ret (fpos i) (counts i), rfl, fun i => hret _ _, fun i => rfl⟩⟩

theorem fpos_lt (h : Inv K s items) (hp : p < 2 ^ K.width) (l : ReadLoop K s counts p) (i : Nat) :
    l.fpos i < 2 ^ K.width := by
  induction i with
  | zero => rw [l.start]; exact hp
  | succ i ih =>
      have hcall := l.call i
      rcases Nat.lt_or_ge (l.fpos i % 2 ^ K.width) s.readable.length with hlt | hge
      · obtain ⟨rest, -, hle, heq⟩ := aesdRead_inside h hlt
        rw [heq (counts i) {}, if_pos rfl, if_pos rfl, Except.ok.injEq] at hcall
        rw [Nat.mod_eq_of_lt ih] at hle
        have htotal := h.total_lt
        rw [← h.length_readable] at htotal
        rw [l.next, ← hcall]
        dsimp only
        omega
      · rw [aesdRead_past h hge, if_pos rfl, Except.ok.injEq] at hcall
        rw [l.next, ← hcall]
        exact ih

theorem atEnd (h : Inv K s items) (hp : p < 2 ^ K.width) (l : ReadLoop K s counts p) {i : Nat}
    (hge : s.readable.length ≤ l.fpos i) : l.AtEnd i := by
  have hcall := l.call i
  rw [aesdRead_past h (by rw [Nat.mod_eq_of_lt (l.fpos_lt h hp i)]; exact hge), if_pos rfl, Except.ok.injEq] at hcall
  rw [AtEnd, l.next, ← hcall]
  exact ⟨rfl, rfl, rfl⟩

/-- Inside the content a call for at least one byte delivers at least one, from the position on. -/
theorem advances (h : Inv K s items) (hp : p < 2 ^ K.width) (hc : ∀ i, 1 ≤ counts i) (l : ReadLoop K s counts p)
    {i : Nat} (hlt : l.fpos i < s.readable.length) :
    l.Advances i ∧ (l.ret i).data = (s.readable.drop (l.fpos i)).take (l.ret i).data.length := by
  have hmod := Nat.mod_eq_of_lt (l.fpos_lt h hp i)
  have hlt' : l.fpos i % 2 ^ K.width < s.readable.length := by omega
  obtain ⟨rest, hpos, hle, heq⟩ := aesdRead_inside h hlt'
  have hcall := l.call i
  have hcount := hc i
  rw [heq (counts i) {}, if_pos rfl, if_pos rfl, Except.ok.injEq, hmod] at hcall
  have hlen : ((s.readable.drop (l.fpos i)).take (min rest (counts i))).length = min rest (counts i) := by
    rw [List.length_take, List.length_drop]
    omega
  rw [Advances, l.next, ← hcall]
  dsimp only
  rw [hlen]
  exact ⟨⟨by omega, by omega, rfl, by omega⟩, rfl⟩

theorem drains (h : Inv K s items) (hp : p < 2 ^ K.width) (hc : ∀ i, 1 ≤ counts i) (l : ReadLoop K s counts p) :
    Drains s.readable l.fpos fun i => (l.ret i).data where
  inside i hlt := by
    obtain ⟨⟨hone, -, hlen, hmove⟩, hdata⟩ := l.advances h hp hc hlt
    exact ⟨by omega, hdata, by omega⟩
  past i hge := by
    obtain ⟨-, hdata, hstay⟩ := l.atEnd h hp hge
    exact ⟨hdata, hstay⟩

end ReadLoop

/-- **Reading to the end gives the whole content.** In every reachable state and for every sequence of positive counts
the reads make progress up to a first call that returns 0, all later calls return 0 and leave the position, and the
bytes delivered are the content from `p` on, so they do not depend on the counts. The position is a `loff_t` that the
driver passes on as a `size_t`; on a 64-bit kernel `hp` holds of every position. -/
theorem read_loop_delivers_content (K : Kernel) (s : State) (hs : Reachable K s) (p : Nat) (hp : p < 2 ^ K.width)
    (counts : Nat → Nat) (hc : ∀ i, 1 ≤ counts i) :
    Nonempty (ReadLoop K s.dev counts p) ∧ ∀ l : ReadLoop K s.dev counts p,
      ∃ stop, (∀ i < stop, l.Advances i) ∧ (∀ i, stop ≤ i → l.AtEnd i) ∧
        (∀ n, stop ≤ n → l.delivered n = s.dev.readable.drop p) ∧
        ∀ counts', (∀ i, 1 ≤ counts' i) → ∀ l' : ReadLoop K s.dev counts' p,
          ∃ stop', (∀ i, stop' ≤ i → l'.AtEnd i) ∧ ∀ n n', stop ≤ n → stop' ≤ n' → l'.delivered n' = l.delivered n := by
  obtain ⟨items, hinv⟩ := Inv.of_reachable hs
  -- one loop, with where it stops
  have hloop : ∀ cs, (∀ i, 1 ≤ cs i) → ∀ l : ReadLoop K s.dev cs p,
      ∃ stop, (∀ i < stop, l.Advances i) ∧ (∀ i, stop ≤ i → l.AtEnd i) ∧
        ∀ n, stop ≤ n → l.delivered n = s.dev.readable.drop p := by
    intro cs hcs l
    have hdrains := l.drains hinv hp hcs
    obtain ⟨stop, hbefore, hafter⟩ := hdrains.stops
    refine ⟨stop, fun i hi => (l.advances hinv hp hcs (hbefore i hi)).1, fun i hi => l.atEnd hinv hp (hafter i hi), ?_⟩
    intro n hn
    rw [ReadLoop.delivered, hdrains.taken_of_past (hafter n hn), l.start]
  refine ⟨ReadLoop.nonempty hinv counts p, fun l => ?_⟩
  obtain ⟨stop, hadv, hend, hall⟩ := hloop counts hc l
  refine ⟨stop, hadv, hend, hall, fun counts' hc' l' => ?_⟩
  obtain ⟨stop', -, hend', hall'⟩ := hloop counts' hc' l'
  refine ⟨stop', hend', fun n n' hn hn' => ?_⟩
  rw [hall n hn, hall' n' hn']

def onePacket : State :=
  { State.init with dev := (unfinished.dev.stored letterA.val newline.val).pushed (letterA.val ++ newline.val) }

theorem reachable_onePacket : Reachable .linux64 onePacket :=
  ⟨[.write 0 letterA {}, .write 0 newline {}], [⟨1, []⟩, ⟨1, []⟩], rfl⟩

/-- From position 1 on there is the newline, whether it is asked for byte by byte or not. -/
theorem read_loop_delivers_content_newline :
    Nonempty (ReadLoop .linux64 onePacket.dev (fun _ => 1) 1) ∧
      ∀ l : ReadLoop .linux64 onePacket.dev (fun _ => 1) 1, ∃ stop,
        (∀ n, stop ≤ n → l.delivered n = [⟨10, none⟩]) ∧
        ∀ l' : ReadLoop .linux64 onePacket.dev (fun _ => 7) 1, ∃ stop', ∀ n', stop' ≤ n' →
          l'.delivered n' = [⟨10, none⟩] := by
  obtain ⟨hne, hall⟩ := read_loop_delivers_content .linux64 onePacket reachable_onePacket 1 (by decide) (fun _ => 1)
    (fun _ => Nat.le_refl 1)
  have hrest : onePacket.dev.readable.drop 1 = [⟨10, none⟩] := by decide
  rw [hrest] at hall
  refine ⟨hne, fun l => ?_⟩
  obtain ⟨stop, -, -, hdel, hsame⟩ := hall l
  refine ⟨stop, hdel, fun l' => ?_⟩
  obtain ⟨stop', -, heq⟩ := hsame (fun _ => 7) (fun _ => by decide) l'
  exact ⟨stop', fun n' hn' => (heq stop n' (Nat.le_refl _) hn').trans (hdel stop (Nat.le_refl _))⟩

end Aesd.Driver
