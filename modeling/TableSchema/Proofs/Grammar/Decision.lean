import TableSchema.Proofs.Grammar.Alternative
import TableSchema.Proofs.Grammar.Append
import TableSchema.Proofs.Grammar.Resume

/-!
# Decisions in texts that are given up

A decision looks at lexemes before they are taken, and at the end of the text in front of `bad` it
looks at `bad`. That does no harm. If the opener is in the text as a whole, the decision is made
whatever stands behind. If it reaches into `bad`, the alternative takes it and stops behind it, not
in front of `bad`. If it does not come next, it must not come next either when `bad` is replaced:
behind its first terminal it accepts none of the tokens that a text is completed with.

## Main definitions

* `avoids`: none of the terminals accepts one of the tokens;
* `Branch.Leads`: an alternative that is resumed once its opener is in the text;
* `Branch.Offers`: an alternative of a choice that may be left out.

## Main results

* `ResumableAt.firstOf`: alternatives are resumed behind something;
* `Resumable.firstOf_demand`, `Resumable.firstOf_spare`: alternatives in front of a demand, and such
  that may be left out;
* `Resumable.choose`, `Resumable.after`, `Resumable.expect`, `Resumable.list` and the others: what
  is put together by decisions.
-/

set_option autoImplicit false

namespace TableSchema.Parser

open Lexeme

variable {α β : Type} {start : Option Token} {x : Token} {samples follows : List Token}
  {p q : Parser α} {b : Branch α} {bs : List (Branch α)} {t : Terminal} {pattern : List Terminal}
  {ls bad new : List Lexeme}

/-! ## Patterns and tokens -/

/-- None of the terminals accepts one of the tokens. -/
def avoids (samples : List Token) (pattern : List Terminal) : Bool :=
  pattern.all fun t => samples.all fun x => !t.accepts x

/-- A pattern that avoids the tokens at hand does not begin in a text that begins with them. -/
theorem apart_of_avoids (h : avoids samples pattern = true) (hled : LedBy samples ls) :
    Terminal.Apart pattern ls := by
  induction pattern with
  | nil => exact .nil
  | cons t pattern ih =>
    obtain ⟨ht, hpattern⟩ := (Bool.and_eq_true _ _).mp h
    refine .cons ?_ (ih hpattern)
    cases ls with
    | nil => rfl
    | cons l ls =>
      have hl : t.accepts l.token = false := by
        simpa using List.all_eq_true.1 ht l.token (hled l rfl)
      rw [Terminal.opens, hl, Bool.false_and]

/-- A pattern whose first terminal avoids the tokens does not come next in front of them. -/
theorem opens_of_avoids (hne : pattern ≠ []) (h : avoids samples (pattern.take 1) = true)
    (hled : LedBy samples ls) : Terminal.opens pattern ls = false := by
  obtain ⟨t, pattern, rfl⟩ := List.exists_cons_of_ne_nil hne
  cases ls with
  | nil => rfl
  | cons l ls =>
    have hapart : Terminal.Apart [t] (l :: ls) := apart_of_avoids h hled
    have hl := hapart [t] (List.suffix_refl _) (List.cons_ne_nil t [])
    rw [Terminal.opens, Terminal.opens, Bool.and_true] at hl
    rw [Terminal.opens, hl, Bool.false_and]

/-- Behind something the first terminal of a pattern is no matter. -/
theorem opens_of_avoids_tail (hls : ls ≠ []) (h : avoids samples pattern.tail = true)
    (hnew : LedBy samples new) :
    Terminal.opens pattern (ls ++ new) = Terminal.opens pattern ls := by
  obtain ⟨l, ls, rfl⟩ := List.exists_cons_of_ne_nil hls
  exact Terminal.Apart.opens_cons_append (apart_of_avoids h hnew) l ls

/-! ## Alternatives -/

/-- An alternative that is resumed once its opener is in the text. If the opener has more than one
terminal, the alternative does not stop inside it. -/
structure Branch.Leads (follows : List Token) (b : Branch α) : Prop where
  /-- The alternative has an opener. -/
  nonempty : b.opener ≠ []
  /-- It goes forward. -/
  forward : Forward b.body
  /-- It takes a lexeme. -/
  consumes : b.Consumes
  /-- It is resumed behind its opener. -/
  resumes : ∀ ls bad, Terminal.opens b.opener ls = true → ResumableAt none follows b.body ls bad
  /-- It stops behind a long opener. -/
  reaches : 1 < b.opener.length → Reaches b.opener b.body

/-- An alternative that stops behind its opener, however short. -/
structure Branch.Offers (follows : List Token) (b : Branch α) : Prop
    extends Branch.Leads follows b where
  /-- It stops behind its opener. -/
  reached : Reaches b.opener b.body

/-- An alternative that begins by skipping lexemes of its opener. -/
theorem Branch.Leads.of_skip {n : Nat} (hn : 0 < n) (hle : n ≤ pattern.length)
    (hreach : Reaches (pattern.drop n) p) (hforward : Forward p)
    (hp : ∀ ls bad, Terminal.opens (pattern.drop n) ls = true →
      ResumableAt start follows p ls bad) :
    (Branch.mk pattern (skip n >>= fun _ => p)).Leads follows where
  nonempty := List.length_pos_iff.1 (Nat.lt_of_lt_of_le hn hle)
  forward := (Forward.skip _).bind fun _ => hforward
  consumes := .of_skip (List.length_pos_iff.1 (Nat.lt_of_lt_of_le hn hle)) hn fun _ => hforward
  resumes ls bad hopens := by
    -- The words that are skipped stand in front of the place where reading is given up.
    have hlength : (ls.take n).length = n :=
      List.length_take_of_le (Nat.le_trans hle (Terminal.length_le_of_opens hopens))
    have hfront : ls.take n ≠ [] := by
      rw [← List.length_pos_iff, hlength]
      exact hn
    have hls : ls = ls.take n ++ ls.drop n := (List.take_append_drop n ls).symm
    have hresumes := hp (ls.drop n) bad (Terminal.opens_drop hopens n)
    rw [hls]
    refine .behind hfront (fun rest => ?_) hresumes
    have hskip : skip n (ls.take n ++ (ls.drop n ++ rest)) = .ok ((), ls.drop n ++ rest) := by
      rw [skip, List.drop_left' hlength]
    exact bind_of_ok hskip
  reaches _ := .skip_bind hle hreach

/-- An alternative behind its opener. -/
theorem Branch.Leads.behind (hne : pattern ≠ []) (hp : Resumable start follows p) :
    (Branch.behind pattern p).Leads follows :=
  .of_skip (List.length_pos_iff.2 hne) (Nat.le_refl _) (by simpa using .nil hp.forward) hp.forward
    fun ls bad _ => hp.resumes ls bad

/-- An alternative that reads its opener itself. -/
theorem Branch.Leads.of_reaches (hne : pattern ≠ []) (hp : Resumable (some x) follows p)
    (hreach : 1 < pattern.length → Reaches pattern p) :
    (Branch.mk pattern p).Leads follows where
  nonempty := hne
  forward := hp.forward
  consumes := .of_body (hp.consumes (Option.some_ne_none x))
  resumes ls bad hopens := by
    refine (hp.resumes _ bad).of_ne_nil ?_
    rintro rfl
    exact hne (List.length_eq_zero_iff.1 (Nat.le_zero.1 (Terminal.length_le_of_opens hopens)))
  reaches := hreach

/-- An alternative that is told by one token and looks at it again. -/
theorem Branch.Leads.of_resumable (hp : Resumable (some x) follows p) :
    (Branch.mk [t] p).Leads follows :=
  .of_reaches (List.cons_ne_nil t []) hp fun h => absurd h (by simp)

/-- What is done with the value does not change where an alternative is resumed. -/
theorem Branch.Leads.map (hb : b.Leads follows) (g : α → β) :
    (Branch.mk b.opener (g <$> b.body)).Leads follows where
  nonempty := hb.nonempty
  forward := hb.forward.map
  consumes ls a rest hopens h := by
    obtain ⟨a', ha', -⟩ := map_eq_ok.1 h
    exact hb.consumes ls a' rest hopens ha'
  resumes ls bad hopens := (hb.resumes ls bad hopens).map g
  reaches hlong := (hb.reaches hlong).map g

/-- An alternative behind its opener is resumed as what follows the opener. -/
theorem Branch.Offers.behind (hne : pattern ≠ []) (hp : Resumable start follows p) :
    (Branch.behind pattern p).Offers follows where
  toLeads := .behind hne hp
  reached := .behind hp.forward

/-- What is done with the value does not change what an alternative offers. -/
theorem Branch.Offers.map (hb : b.Offers follows) (g : α → β) :
    (Branch.mk b.opener (g <$> b.body)).Offers follows where
  toLeads := hb.toLeads.map g
  reached := hb.reached.map g

/-! ## The first alternative -/

/-- Behind something alternatives are resumed as each of them is, if no opener changes with what
stands behind the text. -/
theorem ResumableAt.firstOf (hls : ls ≠ []) (hbs : ∀ b ∈ bs, b.Leads follows)
    (hinner : ∀ b ∈ bs, ∀ new, LedBy fillers new →
      Terminal.opens b.opener (ls ++ new) = Terminal.opens b.opener ls)
    (hq : ResumableAt start follows q ls bad) :
    ResumableAt start follows (firstOf bs q) ls bad := by
  induction bs with
  | nil => exact hq
  | cons b bs ih =>
    obtain ⟨hb, hbs⟩ := List.forall_mem_cons.1 hbs
    obtain ⟨hopener, hinner⟩ := List.forall_mem_cons.1 hinner
    by_cases hopens : Terminal.opens b.opener ls = true
    · have htrue : ∀ rest, Parser.firstOf (b :: bs) q (ls ++ rest) = b.body (ls ++ rest) :=
        fun rest => by rw [firstOf_cons, if_pos (Terminal.opens_append_of_opens hopens rest)]
      exact .of_eq (htrue bad) (fun new _ => htrue new)
        ((hb.resumes ls bad hopens).of_ne_nil hls)
    · by_cases hbad : Terminal.opens b.opener (ls ++ bad) = true
      · -- The opener is longer than the text, so it has more than one terminal.
        have hlt : ls.length < b.opener.length := by
          by_contra hle
          exact hopens ((Terminal.opens_append_of_le (Nat.not_lt.1 hle) bad).symm.trans hbad)
        have hpos := List.length_pos_iff.2 hls
        have htrue : Parser.firstOf (b :: bs) q (ls ++ bad) = b.body (ls ++ bad) := by
          rw [firstOf_cons, if_pos hbad]
        exact .of_leaves_of_eq htrue ((hb.reaches (by omega)).ne_append hbad hlt)
      · refine .of_eq (q := Parser.firstOf bs q) ?_ (fun new hnew => ?_) (ih hbs hinner)
        · rw [firstOf_cons, if_neg hbad]
        · rw [firstOf_cons, hopener new hnew, if_neg hopens]

/-- A choice can be made for an alternative that no earlier one hides. -/
theorem Startable.choose {e : Expected} {front back : List (Branch α)}
    (hfront : ∀ b ∈ front, b.opener ≠ [] ∧ avoids [x] (b.opener.take 1) = true)
    (hx : x ∈ fillers) (ht : t.accepts x = true) (hp : Resumable start follows p) :
    Startable (some x) follows (choose e (front ++ .behind [t] p :: back)) := by
  obtain ⟨more, a, hsub, -, hok⟩ := hp.startable
  refine ⟨x :: more, a, List.cons_subset.2 ⟨hx, hsub⟩, fun _ => rfl, fun us hus hfollow => ?_⟩
  rw [choose_eq, ← hok us hus hfollow]
  induction front with
  | nil =>
    have hopens : Terminal.opens [t] (ofTokens (x :: more) ++ us) = true :=
      Bool.and_eq_true_iff.2 ⟨ht, rfl⟩
    exact if_pos hopens
  | cons b front ih =>
    obtain ⟨⟨hne, hb⟩, hfront⟩ := List.forall_mem_cons.1 hfront
    have hled : LedBy [x] (ofTokens (x :: more) ++ us) := .cons (List.mem_singleton_self x)
    rw [List.cons_append, firstOf_cons, opens_of_avoids hne hb hled, if_neg Bool.false_ne_true]
    exact ih hfront

namespace Resumable

/-- Alternatives in front of a demand, if they are resumed behind something. -/
theorem firstOf_of_ne_nil (hbs : ∀ b ∈ bs, b.Leads follows)
    (hfirst : ∀ b ∈ bs, avoids [x] (b.opener.take 1) = true) (hq : Resumable (some x) follows q)
    (hne : ∀ ls bad, ls ≠ [] → ResumableAt (some x) follows (firstOf bs q) ls bad) :
    Resumable (some x) follows (firstOf bs q) := by
  have hconsumes : Consumes q := hq.consumes (Option.some_ne_none x)
  refine .of_startable (.firstOf (fun b hb => (hbs b hb).forward) hq.forward)
    (.firstOf (fun b hb => (hbs b hb).consumes) hconsumes) ?_ hne
  refine hq.startable.of_eq hconsumes fun l ls hl => firstOf_of_not_opens fun b hb => ?_
  exact opens_of_avoids (hbs b hb).nonempty (hfirst b hb) (.cons (by simp [hl]))

/-- Alternatives in front of a demand. -/
theorem firstOf_demand (hbs : ∀ b ∈ bs, b.Leads follows)
    (hinner : ∀ b ∈ bs, avoids fillers b.opener.tail = true)
    (hfirst : ∀ b ∈ bs, avoids [x] (b.opener.take 1) = true)
    (hq : Resumable (some x) follows q) : Resumable (some x) follows (firstOf bs q) :=
  .firstOf_of_ne_nil hbs hfirst hq fun ls bad hls => .firstOf hls hbs
    (fun b hb _ => opens_of_avoids_tail hls (hinner b hb)) (hq.resumes ls bad)

/-- Alternatives that may be left out, if none of the tokens that may follow begins one. -/
theorem firstOf_spare (hbs : ∀ b ∈ bs, b.Offers follows)
    (hinner : ∀ b ∈ bs, avoids fillers b.opener.tail = true)
    (hfirst : ∀ b ∈ bs, avoids follows (b.opener.take 1) = true)
    (hq : Resumable none follows q) : Resumable none follows (firstOf bs q) where
  forward := .firstOf (fun b hb => (hbs b hb).forward) hq.forward
  consumes := nofun
  resumes ls bad := by
    by_cases hls : ls = []
    · obtain rfl := hls
      rcases firstOf_cases bs q ([] ++ bad) with ⟨b, hb, hopens, heq⟩ | ⟨-, hbad⟩
      · -- An alternative that is read takes its opener at least.
        have hpos := List.length_pos_iff.2 (hbs b hb).nonempty
        exact .of_leaves_of_eq heq ((hbs b hb).reached.ne_append hopens hpos)
      · constructor
        · intro a mid hok new hled hfollow
          rw [hbad] at hok
          obtain rfl := eq_nil_of_suffix (hq.forward.suffix_of_ok hok)
          rw [← (hq.resumes [] bad).swaps a [] hok new hled hfollow]
          exact firstOf_of_not_opens fun b hb =>
            opens_of_avoids (hbs b hb).nonempty (hfirst b hb) (hfollow rfl)
        · intro e herror
          exact absurd (hbad.symm.trans herror) (hq.not_missed bad e)
    · exact .firstOf hls (fun b hb => (hbs b hb).toLeads)
        (fun b hb _ => opens_of_avoids_tail hls (hinner b hb)) (hq.resumes ls bad)

/-- One alternative in front of a demand. -/
theorem firstOf_one_demand (hb : b.Leads follows) (hinner : avoids fillers b.opener.tail = true)
    (hfirst : avoids [x] (b.opener.take 1) = true) (hq : Resumable (some x) follows q) :
    Resumable (some x) follows (firstOf [b] q) :=
  .firstOf_demand (List.forall_mem_singleton.2 hb) (List.forall_mem_singleton.2 hinner)
    (List.forall_mem_singleton.2 hfirst) hq

/-- One alternative that may be left out. -/
theorem firstOf_one_spare (hb : b.Offers follows) (hinner : avoids fillers b.opener.tail = true)
    (hfirst : avoids follows (b.opener.take 1) = true) (hq : Resumable none follows q) :
    Resumable none follows (firstOf [b] q) :=
  .firstOf_spare (List.forall_mem_singleton.2 hb) (List.forall_mem_singleton.2 hinner)
    (List.forall_mem_singleton.2 hfirst) hq

/-! ## Decisions -/

/-- A choice that may be left out is resumed if its openers avoid what may stand at `bad`. -/
theorem choose? (hbs : ∀ b ∈ bs, b.Offers follows)
    (hinner : ∀ b ∈ bs, avoids fillers b.opener.tail = true)
    (hfirst : ∀ b ∈ bs, avoids follows (b.opener.take 1) = true) :
    Resumable none follows (choose? bs) := by
  rw [choose?_eq]
  refine .firstOf_spare ?_ ?_ ?_ (.pure none)
  · exact List.forall_mem_map.2 fun b hb => (hbs b hb).map some
  · exact List.forall_mem_map.2 hinner
  · exact List.forall_mem_map.2 hfirst

/-- A demanded choice is resumed if its alternatives are, and one of them makes up for all of it. -/
theorem choose {e : Expected} (hbs : ∀ b ∈ bs, b.Leads follows)
    (hinner : ∀ b ∈ bs, avoids fillers b.opener.tail = true)
    (hstart : Startable (some x) follows (choose e bs)) :
    Resumable (some x) follows (choose e bs) := by
  have heq := choose_eq e bs
  refine .of_startable ?_ (.choose fun b hb => (hbs b hb).consumes) hstart fun ls bad hls => ?_
  · rw [heq]
    exact .firstOf (fun b hb => (hbs b hb).forward) (.fail e)
  · rw [heq]
    refine .firstOf hls hbs (fun b hb _ => opens_of_avoids_tail hls (hinner b hb)) ?_
    exact .of_missed hls rfl

/-- What stands behind a pattern is resumed once the pattern is there. -/
theorem after (hne : pattern ≠ []) (hinner : avoids fillers pattern.tail = true)
    (hfirst : avoids follows (pattern.take 1) = true) (hp : Resumable start follows p) :
    Resumable none follows (after pattern p) := by
  rw [after_eq]
  exact .firstOf_one_spare (.behind hne (hp.map some)) hinner hfirst (.pure none)

/-- What begins with a terminal is resumed once the terminal is there. -/
theorem ifAhead (hfirst : avoids follows [t] = true) (hreach : Reaches [t] p)
    (hp : Resumable (some x) follows p) : Resumable none follows (ifAhead [t] p) := by
  rw [ifAhead_eq]
  exact .firstOf_one_spare ⟨.of_resumable (hp.map some), hreach.map some⟩ rfl hfirst (.pure none)

/-- A terminal that may be left out in front of a rule that may be left out. -/
theorem eat_bind_spare {f : Bool → Parser α} (hfirst : avoids follows [t] = true)
    (htrue : Resumable start follows (f true)) (hfalse : Resumable none follows (f false)) :
    Resumable none follows (eat t >>= f) := by
  rw [eat_bind_eq]
  exact .firstOf_one_spare (.behind (List.cons_ne_nil _ _) htrue) rfl hfirst hfalse

/-- A terminal that may be left out in front of a rule that is demanded. -/
theorem eat_bind_demand {f : Bool → Parser α} (hfirst : avoids [x] [t] = true)
    (htrue : Resumable start follows (f true)) (hfalse : Resumable (some x) follows (f false)) :
    Resumable (some x) follows (eat t >>= f) := by
  rw [eat_bind_eq]
  exact .firstOf_one_demand (.behind (List.cons_ne_nil _ _) htrue) rfl hfirst hfalse

/-- A terminal that may be left out is never missed. -/
theorem eat (hfirst : avoids follows [t] = true) : Resumable none follows (eat t) := by
  rw [← bind_pure (Parser.eat t)]
  exact .eat_bind_spare hfirst (.pure true) (.pure false)

/-- A demanded terminal is supplied by a token that it accepts. -/
theorem expect (hx : x ∈ fillers) (ht : t.accepts x = true) :
    Resumable (some x) fillers (expect t) := by
  refine .of_startable (.expect t) (.expect t) ?_ fun ls bad hls => ?_
  · exact ⟨[x], (), List.cons_subset.2 ⟨hx, List.nil_subset _⟩, fun _ => rfl,
      fun us _ _ => expect_cons ht⟩
  · have hnothing : Resumable none fillers (Pure.pure () : Parser Unit) := .pure ()
    rw [expect_eq]
    refine .firstOf hls ?_ ?_ ?_
    · exact List.forall_mem_singleton.2 (.behind (List.cons_ne_nil t []) hnothing)
    · exact List.forall_mem_singleton.2 fun _ => opens_of_avoids_tail hls rfl
    · exact .of_missed hls rfl

/-- What is open can be closed. -/
theorem expect_close :
    Resumable (some (.symbol .closeParen)) fillers (Parser.expect (.symbol .closeParen)) :=
  .expect (by decide) rfl

/-! ## Lists -/

section

variable {item : Parser α}

/-- Behind a comma another item can be supplied. -/
theorem separated (h : Resumable (some x) closers item) :
    Resumable (some x) closers (separated item) := by
  have hothers : Resumable none closers (Parser.many (Parser.after [.symbol .comma] item)) :=
    (Resumable.after (List.cons_ne_nil _ _) rfl (by decide) h).many
      (.after (List.cons_ne_nil _ _) h.forward)
  exact h.bind_spare fun first => hothers.bind_spare fun others => .pure (first :: others)

/-- A list demands its parenthesis, can be given another item behind a comma, and can be closed. -/
theorem list (h : Resumable (some x) closers item) :
    Resumable (some (.symbol .openParen)) fillers (list item) :=
  (Resumable.expect (by decide) rfl).firm_bind fun _ =>
    h.separated.bind_demand (fun items => expect_close.bind_spare fun _ => .pure items) (by decide)

end

end Resumable

/-- A list that is begun does not stop at its parenthesis. -/
theorem Reaches.list {item : Parser α} (h : Resumable (some x) closers item) :
    Reaches [.symbol .openParen] (list item) :=
  .expect_bind (.nil (h.separated.forward.bind fun _ => (Forward.expect _).bind fun _ => .pure _))

end TableSchema.Parser
