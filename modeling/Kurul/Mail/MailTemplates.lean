import Kurul.Html
import Kurul.Locale

/-!
# Kurul.Mail.MailTemplates

The two mails that the product sends, in each language, and what user text can make of them.

* `escapeHtml_eq` — what the five replacements do to a text.
* `read_verification`, `read_invitation` — the tags and texts of a mail.
* `mails_shaped`  — what is the same in every mail of a kind, and what is not.
-/

namespace Kurul
namespace Mail

def newline : CodeUnit := Fin.ofNat 65536 10

/-! ## The source -/

def productName : JsString := js "Kurul"

/-- `value.replace(/c/g, text)`. -/
def replaceUnit (c : CodeUnit) (text value : JsString) : JsString :=
  value.flatMap fun u => if u = c then text else [u]

def escapeHtml (value : JsString) : JsString :=
  replaceUnit (Fin.ofNat 65536 39) (js "&#39;") (replaceUnit (Fin.ofNat 65536 34) (js "&quot;")
    (replaceUnit (Fin.ofNat 65536 62) (js "&gt;") (replaceUnit (Fin.ofNat 65536 60) (js "&lt;")
      (replaceUnit (Fin.ofNat 65536 38) (js "&amp;") value))))

/-- `value.replace(/\s+/g, ' ')`, in a run of spaces or not. -/
def collapse : (run : Bool) → JsString → JsString
  | _, [] => []
  | run, c :: s =>
    if isSpace c then if run then collapse true s else Fin.ofNat 65536 32 :: collapse true s
    else c :: collapse false s

def singleLine (value : JsString) : JsString := trim (collapse false value)

def boxStyle : JsString :=
  js "font-family:system-ui,-apple-system,Segoe UI,sans-serif;line-height:1.5;color:#111"

def headingStyle : JsString := js "font-size:20px;margin:0 0 16px"

def footerStyle : JsString := js "font-size:12px;color:#666;margin-top:24px"

def buttonStyle : JsString :=
  js "display:inline-block;padding:10px 16px;background:#111;color:#fff;border-radius:6px;text-decoration:none"

def smallStyle : JsString := js "font-size:12px;color:#666"

def htmlDocument (heading bodyHtml : JsString) : JsString :=
  js "<div style=\"" ++ boxStyle ++ js "\">" ++
    (js "<h1 style=\"" ++ headingStyle ++ js "\">" ++ escapeHtml heading ++ js "</h1>") ++
    bodyHtml ++
    (js "<p style=\"" ++ footerStyle ++ js "\">" ++ escapeHtml productName ++ js "</p>") ++
    js "</div>"

def actionHtml (label url linkFallback : JsString) : JsString :=
  let safeUrl := escapeHtml url
  js "<p><a href=\"" ++ safeUrl ++ js "\" style=\"" ++ buttonStyle ++ js "\">" ++ escapeHtml label ++
    js "</a></p>" ++
    (js "<p style=\"" ++ smallStyle ++ js "\">" ++ escapeHtml linkFallback ++ js "<br>" ++ safeUrl ++ js "</p>")

structure VerificationCopy where
  subject : JsString
  heading : JsString
  greeting : JsString → JsString
  greetingAnonymous : JsString
  lead : JsString
  action : JsString
  closing : JsString

structure InvitationCopy where
  subject : JsString → JsString
  heading : JsString → JsString
  lead : JsString → JsString → JsString
  leadAnonymous : JsString → JsString
  action : JsString
  note : JsString
  closing : JsString

structure MailCopy where
  linkFallback : JsString
  verification : VerificationCopy
  invitation : InvitationCopy

/-- `MAIL_COPY`. -/
def mailCopy : Locale → MailCopy
  | .en => {
      linkFallback := js "If the button does not work, paste this link into your browser:"
      verification := {
        subject := js "Confirm your email address for " ++ productName
        heading := js "Confirm your email address"
        greeting name := js "Hi " ++ name ++ js ","
        greetingAnonymous := js "Hi,"
        lead := js "Confirm this address to finish setting up your " ++ productName ++
          js " account. You need a confirmed address before you can accept a workspace invitation."
        action := js "Confirm email address"
        closing := js "If you did not create this account, you can ignore this email." }
      invitation := {
        subject workspaceName :=
          js "You have been invited to join " ++ workspaceName ++ js " on " ++ productName
        heading workspaceName := js "Join " ++ workspaceName
        lead inviterName workspaceName := inviterName ++ js " invited you to join the workspace \"" ++
          workspaceName ++ js "\" on " ++ productName ++ js "."
        leadAnonymous workspaceName := js "You have been invited to join the workspace \"" ++
          workspaceName ++ js "\" on " ++ productName ++ js "."
        action := js "View invitation"
        note := js "Sign in with this email address and confirm it first — " ++
          js "an invitation can only be accepted from a confirmed address."
        closing := js "If you were not expecting this invitation, you can ignore this email." } }
  | .tr => {
      linkFallback := js "Buton çalışmıyorsa bu bağlantıyı tarayıcınıza yapıştırın:"
      verification := {
        subject := productName ++ js " için e-posta adresinizi doğrulayın"
        heading := js "E-posta adresinizi doğrulayın"
        greeting name := js "Merhaba " ++ name ++ js ","
        greetingAnonymous := js "Merhaba,"
        lead := productName ++ js " hesabınızı tamamlamak için bu adresi doğrulayın. " ++
          js "Bir workspace davetini kabul edebilmeniz için adresinizin doğrulanmış olması gerekiyor."
        action := js "E-posta adresini doğrula"
        closing := js "Bu hesabı siz oluşturmadıysanız bu e-postayı yok sayabilirsiniz." }
      invitation := {
        subject workspaceName :=
          productName ++ js "'da " ++ workspaceName ++ js " workspace'ine davet edildiniz"
        heading workspaceName := workspaceName ++ js " workspace'ine katılın"
        lead inviterName workspaceName := inviterName ++ js ", sizi " ++ productName ++ js "'daki \"" ++
          workspaceName ++ js "\" workspace'ine davet etti."
        leadAnonymous workspaceName := productName ++ js "'daki \"" ++ workspaceName ++
          js "\" workspace'ine davet edildiniz."
        action := js "Daveti görüntüle"
        note := js "Önce bu e-posta adresiyle giriş yapın ve adresi doğrulayın — " ++
          js "bir davet yalnızca doğrulanmış bir adresten kabul edilebilir."
        closing := js "Böyle bir davet beklemiyorsanız bu e-postayı yok sayabilirsiniz." } }

/-- An unknown tag is not a `Locale`; one that is missing is English. -/
def copyFor (locale : Option Locale) : MailCopy := mailCopy (locale.getD .en)

structure MailMessage where
  /-- `to`. -/
  recipient : JsString
  subject : JsString
  text : JsString
  html : JsString

structure VerificationEmailParams where
  recipient : JsString
  name : JsString
  verificationUrl : JsString
  locale : Locale

/-- What the mail starts with. -/
def VerificationEmailParams.greeting (params : VerificationEmailParams) : JsString :=
  let copy := (copyFor params.locale).verification
  let name := singleLine params.name
  if name = [] then copy.greetingAnonymous else copy.greeting name

def buildVerificationEmail (params : VerificationEmailParams) : MailMessage :=
  let copy := (copyFor params.locale).verification
  { recipient := params.recipient
    subject := singleLine copy.subject
    text := [newline].intercalate
      [params.greeting, [], copy.lead, [], params.verificationUrl, [], copy.closing]
    html := htmlDocument copy.heading (
      (js "<p>" ++ escapeHtml params.greeting ++ js "</p><p>" ++ escapeHtml copy.lead ++ js "</p>") ++
        actionHtml copy.action params.verificationUrl (copyFor params.locale).linkFallback ++
        (js "<p>" ++ escapeHtml copy.closing ++ js "</p>")) }

structure InvitationEmailParams where
  recipient : JsString
  inviterName : JsString
  workspaceName : JsString
  acceptUrl : JsString
  locale : Locale

def InvitationEmailParams.lead (params : InvitationEmailParams) : JsString :=
  let copy := (copyFor params.locale).invitation
  let workspaceName := singleLine params.workspaceName
  let inviterName := singleLine params.inviterName
  if inviterName = [] then copy.leadAnonymous workspaceName else copy.lead inviterName workspaceName

def buildInvitationEmail (params : InvitationEmailParams) : MailMessage :=
  let copy := (copyFor params.locale).invitation
  let workspaceName := singleLine params.workspaceName
  { recipient := params.recipient
    subject := singleLine (copy.subject workspaceName)
    text := [newline].intercalate [params.lead, [], params.acceptUrl, [], copy.note, [], copy.closing]
    html := htmlDocument (copy.heading workspaceName) (
      (js "<p>" ++ escapeHtml params.lead ++ js "</p>") ++
        actionHtml copy.action params.acceptUrl (copyFor params.locale).linkFallback ++
        (js "<p>" ++ escapeHtml copy.note ++ js "</p><p>" ++ escapeHtml copy.closing ++ js "</p>")) }

/-! ## What is asked of them -/

def isLineTerminator (c : CodeUnit) : Bool := c.val = 10 || c.val = 13 || c.val = 0x2028 || c.val = 0x2029

/-- A text cut at every line terminator. -/
def lines (s : JsString) : List JsString :=
  (s.map fun c => if isLineTerminator c then newline else c).splitOn newline

def href : JsString := js "href"

/-- The tags of a document with their attributes, but for the addresses of its links. -/
def frame (html : JsString) : Option (List Html.Tag) :=
  (Html.read .data html).map fun m => m.2.map fun item =>
    { item.1 with attributes := item.1.attributes.map fun a => if a.1 = href then (a.1, []) else a }

/-- The text behind every tag, as it is shown. -/
def texts (html : JsString) : Option (List JsString) :=
  (Html.read .data html).map fun m => m.2.map fun item => Html.unescape item.2

def hrefs (html : JsString) : Option (List JsString) :=
  (Html.read .data html).map fun m => m.2.flatMap fun item =>
    (item.1.attributes.filter fun a => a.1 = href).map fun a => Html.unescape a.2

/-- A mail of one shape, whatever it is made of: its tags, its sentences, its link and its lines. -/
structure Shaped {Params : Type} (build : Params → MailMessage) (url : Params → JsString)
    (sentences textLines : Params → List JsString) : Prop where
  frame : ∀ p q, ∃ tags, frame (build p).html = some tags ∧ frame (build q).html = some tags
  texts : ∀ p, texts (build p).html = some (sentences p)
  hrefs : ∀ p, hrefs (build p).html = some [url p]
  subject : ∀ p, ∀ c ∈ (build p).subject, isLineTerminator c = false
  text : ∀ p, newline ∉ url p → (build p).text.splitOn newline = textLines p
  lines : ∀ p, (∀ c ∈ url p, isLineTerminator c = false) → lines (build p).text = textLines p
  number : ∀ p q, (textLines p).length = (textLines q).length

/-! ## Lines -/

section Lines

variable {c : CodeUnit} {s t : JsString}

def OneLine (s : JsString) : Prop := s.all (fun c => !isLineTerminator c) = true

instance : Decidable (OneLine s) := inferInstanceAs (Decidable (_ = _))

theorem OneLine.append (hs : OneLine s) (ht : OneLine t) : OneLine (s ++ t) := by
  rw [OneLine, List.all_append, hs, ht]
  rfl

theorem oneLine_js {l : List Char} (h : (l.all fun c => !isLineTerminator (Fin.ofNat 65536 c.toNat)) = true) :
    OneLine (js (String.ofList l)) := (all_js l _).trans h

theorem oneLine_iff : OneLine s ↔ ∀ c ∈ s, isLineTerminator c = false := by simp [OneLine]

/-- Of the spaces there are only blanks left. -/
theorem eq_blank_of_mem_collapse {run : Bool} (h : c ∈ collapse run s) (hspace : isSpace c = true) :
    c = Fin.ofNat 65536 32 := by
  induction s generalizing run with
  | nil => cases h
  | cons d s ih =>
    unfold collapse at h
    split at h
    · split at h
      · exact ih h
      · rcases List.mem_cons.mp h with rfl | h
        · rfl
        · exact ih h
    · rename_i hd
      rcases List.mem_cons.mp h with rfl | h
      · exact absurd hspace hd
      · exact ih h

theorem isSpace_of_isLineTerminator (h : isLineTerminator c = true) : isSpace c = true := by
  simp only [isLineTerminator, Bool.or_eq_true, decide_eq_true_eq] at h
  simp only [isSpace, Bool.or_eq_true, Bool.and_eq_true, decide_eq_true_eq, beq_iff_eq]
  omega

theorem mem_of_mem_trim (h : c ∈ trim s) : c ∈ s := by
  unfold trim at h
  rw [List.mem_reverse] at h
  exact (List.dropWhile_sublist _).mem (List.mem_reverse.mp ((List.dropWhile_sublist _).mem h))

theorem oneLine_singleLine (s : JsString) : OneLine (singleLine s) := by
  refine oneLine_iff.mpr fun c hc => ?_
  cases hline : isLineTerminator c with
  | false => rfl
  | true =>
    have hblank := eq_blank_of_mem_collapse (mem_of_mem_trim hc) (isSpace_of_isLineTerminator hline)
    rw [hblank] at hline
    exact absurd hline (by decide)

theorem OneLine.newline_not_mem (h : OneLine s) : newline ∉ s := by
  intro hmem
  have hnot := oneLine_iff.mp h _ hmem
  exact absurd hnot (by decide)

theorem mem_intercalate {parts : List JsString} {d : CodeUnit} (h : c ∈ [d].intercalate parts) :
    c = d ∨ ∃ p ∈ parts, c ∈ p := by
  induction parts with
  | nil => cases h
  | cons p rest ih =>
    cases rest with
    | nil => exact .inr ⟨p, .head _, by simpa using h⟩
    | cons q rest =>
      rw [List.intercalate_cons_cons, List.append_assoc, List.mem_append, List.singleton_append,
        List.mem_cons] at h
      rcases h with h | h | h
      · exact .inr ⟨p, .head _, h⟩
      · exact .inl h
      · rcases ih h with h | ⟨r, hr, h⟩
        · exact .inl h
        · exact .inr ⟨r, .tail _ hr, h⟩

/-- Parts that are one line each are the lines of the whole. -/
theorem lines_join {parts : List JsString} (h : ∀ p ∈ parts, OneLine p) (hne : parts ≠ []) :
    lines ([newline].intercalate parts) = parts := by
  have hmap : ([newline].intercalate parts).map (fun c => if isLineTerminator c then newline else c) =
      [newline].intercalate parts := by
    conv_rhs => rw [← List.map_id ([newline].intercalate parts)]
    refine List.map_congr_left fun c hc => ?_
    by_cases hline : isLineTerminator c = true
    · rw [if_pos hline]
      rcases mem_intercalate hc with rfl | ⟨p, hp, hmem⟩
      · rfl
      · have hnot := oneLine_iff.mp (h p hp) c hmem
        rw [hline] at hnot
        cases hnot
    · rw [if_neg hline]
      rfl
  rw [lines, hmap, List.splitOn_intercalate newline (fun p hp => (h p hp).newline_not_mem) hne]

end Lines

/-! ## The document -/

abbrev Item : Type := Html.Tag × JsString

def opening (name : String) (attributes : List (JsString × JsString)) (text : JsString) : Item :=
  (⟨false, js name, attributes⟩, Html.escape text)

def closing (name : String) : Item := (⟨true, js name, []⟩, [])

def paragraph (text : JsString) : List Item := [opening "p" [] text, closing "p"]

def style : JsString := js "style"

/-- The document of `htmlDocument`. -/
def documentItems (heading : JsString) (body : List Item) : List Item :=
  [opening "div" [(style, boxStyle)] [], opening "h1" [(style, headingStyle)] heading, closing "h1"] ++ body ++
    [opening "p" [(style, footerStyle)] productName, closing "p", closing "div"]

def actionItems (label url linkFallback : JsString) : List Item :=
  [opening "p" [] [], opening "a" [(href, Html.escape url), (style, buttonStyle)] label, closing "a",
    closing "p", opening "p" [(style, smallStyle)] linkFallback, opening "br" [] url, closing "p"]

section Document

variable {text url : JsString} {items : List Item}

theorem replaceUnit_append (c : CodeUnit) (text s t : JsString) :
    replaceUnit c text (s ++ t) = replaceUnit c text s ++ replaceUnit c text t := List.flatMap_append

theorem escapeHtml_append (s t : JsString) : escapeHtml (s ++ t) = escapeHtml s ++ escapeHtml t := by
  simp only [escapeHtml, replaceUnit_append]

/-- The five replacements, one after the other, escape every character once. -/
theorem escapeHtml_eq (s : JsString) : escapeHtml s = Html.escape s := by
  have hone : ∀ u : CodeUnit, escapeHtml [u] = Html.reference u := by
    intro u
    by_cases hamp : u = Fin.ofNat 65536 38
    · rw [hamp]; rfl
    by_cases hlt : u = Fin.ofNat 65536 60
    · rw [hlt]; rfl
    by_cases hgt : u = Fin.ofNat 65536 62
    · rw [hgt]; rfl
    by_cases hquote : u = Fin.ofNat 65536 34
    · rw [hquote]; rfl
    by_cases hapos : u = Fin.ofNat 65536 39
    · rw [hapos]; rfl
    · have hplain : ∀ (c : CodeUnit) (text : JsString), u ≠ c → replaceUnit c text [u] = [u] := by
        intro c text hne
        simp [replaceUnit, hne]
      rw [escapeHtml, hplain _ _ hamp, hplain _ _ hlt, hplain _ _ hgt, hplain _ _ hquote, hplain _ _ hapos]
      have hfind : (Html.references.find? fun r => r.1 = u) = none := by
        refine List.find?_eq_none.mpr fun r hr heq => ?_
        simp only [Html.references, List.mem_cons, List.not_mem_nil, or_false, decide_eq_true_eq] at hr heq
        rcases hr with rfl | rfl | rfl | rfl | rfl
        · exact hamp heq.symm
        · exact hlt heq.symm
        · exact hgt heq.symm
        · exact hquote heq.symm
        · exact hapos heq.symm
      rw [Html.reference, hfind]
      rfl
  induction s with
  | nil => rfl
  | cons u s ih =>
    have hcons := escapeHtml_append [u] s
    rw [List.singleton_append] at hcons
    rw [hcons, hone, ih]
    rfl

theorem write_document (heading : JsString) (body : List Item) :
    htmlDocument heading (Html.write body) = Html.write (documentItems heading body) := by
  simp [htmlDocument, documentItems, opening, closing, Html.write, Html.Tag.write, escapeHtml_eq, js, style, Html.escape]

theorem write_action (label url linkFallback : JsString) :
    actionHtml label url linkFallback = Html.write (actionItems label url linkFallback) := by
  simp [actionHtml, actionItems, opening, closing, Html.write, Html.Tag.write, escapeHtml_eq, js, style, href, Html.escape]

theorem write_paragraph (text : JsString) :
    js "<p>" ++ escapeHtml text ++ js "</p>" = Html.write (paragraph text) := by
  simp [paragraph, opening, closing, Html.write, Html.Tag.write, escapeHtml_eq, js]

theorem write_append (a b : List Item) : Html.write (a ++ b) = Html.write a ++ Html.write b :=
  List.flatMap_append

/-- What can be read back: plain names, values that end where they end, and no tag in a text. -/
def Readable (items : List Item) : Prop := ∀ item ∈ items, item.1.Plain ∧ 60 ∉ item.2

theorem Readable.append {a b : List Item} (ha : Readable a) (hb : Readable b) : Readable (a ++ b) := by
  intro item h
  rcases List.mem_append.mp h with h | h
  · exact ha item h
  · exact hb item h

theorem readable_opening {name : String} {attributes : List (JsString × JsString)}
    (hnames : Html.Tag.plainNames ⟨false, js name, attributes⟩ = true) (hvalues : ∀ a ∈ attributes, 34 ∉ a.2)
    (text : JsString) : Readable [opening name attributes text] := by
  intro item h
  rw [List.mem_singleton.mp h]
  exact ⟨Html.Tag.plain_of_names hnames hvalues, (Html.not_mem_escape text).1⟩

theorem readable_plain {name : String} (hnames : Html.Tag.plainNames ⟨false, js name, []⟩ = true)
    (text : JsString) : Readable [opening name [] text] :=
  readable_opening hnames (List.forall_mem_nil _) text

theorem readable_closing {name : String} (hnames : Html.Tag.plainNames ⟨true, js name, []⟩ = true) :
    Readable [closing name] := by
  intro item h
  rw [List.mem_singleton.mp h]
  exact ⟨Html.Tag.plain_of_names hnames (List.forall_mem_nil _), List.not_mem_nil⟩

/-- No style ends its attribute. -/
theorem quote_not_mem_style :
    ∀ s ∈ [boxStyle, headingStyle, footerStyle, buttonStyle, smallStyle], 34 ∉ s := by
  simp only [List.mem_cons, List.not_mem_nil, or_false, forall_eq_or_imp, forall_eq]
  exact ⟨not_mem_js rfl, not_mem_js rfl, not_mem_js rfl, not_mem_js rfl, not_mem_js rfl⟩

theorem readable_styled {name : String} {value : JsString}
    (hnames : Html.Tag.plainNames ⟨false, js name, [(style, value)]⟩ = true)
    (hvalue : value ∈ [boxStyle, headingStyle, footerStyle, buttonStyle, smallStyle]) (text : JsString) :
    Readable [opening name [(style, value)] text] := by
  refine readable_opening hnames (fun a ha => ?_) text
  rw [List.mem_singleton.mp ha]
  exact quote_not_mem_style value hvalue

theorem readable_paragraph (text : JsString) : Readable (paragraph text) :=
  (readable_plain rfl text).append (readable_closing rfl)

theorem readable_action (label url linkFallback : JsString) : Readable (actionItems label url linkFallback) := by
  have hlink : ∀ a ∈ [(href, Html.escape url), (style, buttonStyle)], 34 ∉ a.2 := by
    simp only [List.mem_cons, List.not_mem_nil, or_false, forall_eq_or_imp, forall_eq]
    exact ⟨(Html.not_mem_escape url).2, quote_not_mem_style buttonStyle (by simp)⟩
  have hlast : Readable [opening "br" [] url, closing "p"] :=
    (readable_plain rfl url).append (readable_closing rfl)
  have hsmall : Readable [opening "p" [(style, smallStyle)] linkFallback] :=
    readable_styled rfl (by simp) linkFallback
  have hbutton : Readable [opening "a" [(href, Html.escape url), (style, buttonStyle)] label] :=
    readable_opening rfl hlink label
  have hends : Readable [closing "a", closing "p"] :=
    (readable_closing rfl).append (readable_closing rfl)
  exact (readable_plain rfl []).append
    (hbutton.append (hends.append (hsmall.append hlast)))

theorem readable_document (heading : JsString) (h : Readable items) : Readable (documentItems heading items) := by
  have hbox : Readable [opening "div" [(style, boxStyle)] []] :=
    readable_styled rfl (by simp) []
  have hheading : Readable [opening "h1" [(style, headingStyle)] heading] :=
    readable_styled rfl (by simp) heading
  have hfooter : Readable [opening "p" [(style, footerStyle)] productName] :=
    readable_styled rfl (by simp) productName
  have hclose : Readable [closing "h1"] := readable_closing rfl
  have hstart := hbox.append (hheading.append hclose)
  have hends : Readable [closing "p", closing "div"] :=
    (readable_closing rfl).append (readable_closing rfl)
  exact (hstart.append h).append (hfooter.append hends)

end Document

/-! ## The mails -/

section Mails

def VerificationEmailParams.items (p : VerificationEmailParams) : List Item :=
  let copy := (copyFor p.locale).verification
  documentItems copy.heading (paragraph p.greeting ++ paragraph copy.lead ++
    actionItems copy.action p.verificationUrl (copyFor p.locale).linkFallback ++ paragraph copy.closing)

def InvitationEmailParams.items (p : InvitationEmailParams) : List Item :=
  let copy := (copyFor p.locale).invitation
  documentItems (copy.heading (singleLine p.workspaceName)) (paragraph p.lead ++
    actionItems copy.action p.acceptUrl (copyFor p.locale).linkFallback ++
    (paragraph copy.note ++ paragraph copy.closing))

theorem two_paragraphs (s t : JsString) :
    js "<p>" ++ escapeHtml s ++ js "</p><p>" ++ escapeHtml t ++ js "</p>" =
      Html.write (paragraph s ++ paragraph t) := by
  have hsplit : js "</p><p>" = js "</p>" ++ js "<p>" := by simp [js]
  rw [write_append, ← write_paragraph, ← write_paragraph, hsplit]
  simp

theorem html_verification (p : VerificationEmailParams) : (buildVerificationEmail p).html = Html.write p.items := by
  unfold VerificationEmailParams.items
  rw [← write_document, write_append, write_append, ← two_paragraphs, ← write_action, ← write_paragraph]
  rfl

theorem html_invitation (p : InvitationEmailParams) : (buildInvitationEmail p).html = Html.write p.items := by
  unfold InvitationEmailParams.items
  rw [← write_document, write_append, write_append, ← two_paragraphs, ← write_action, ← write_paragraph]
  rfl

theorem read_verification (p : VerificationEmailParams) :
    Html.read .data (buildVerificationEmail p).html = some ([], p.items) := by
  rw [html_verification]
  refine Html.read_write (readable_document _ ?_)
  exact (((readable_paragraph _).append (readable_paragraph _)).append (readable_action _ _ _)).append
    (readable_paragraph _)

theorem read_invitation (p : InvitationEmailParams) :
    Html.read .data (buildInvitationEmail p).html = some ([], p.items) := by
  rw [html_invitation]
  refine Html.read_write (readable_document _ ?_)
  exact ((readable_paragraph _).append (readable_action _ _ _)).append
    ((readable_paragraph _).append (readable_paragraph _))

/-- What the mail says, tag by tag: after a tag that is followed by another there is no text. -/
def VerificationEmailParams.sentences (p : VerificationEmailParams) : List JsString :=
  let copy := (copyFor p.locale).verification
  [[], copy.heading, [], p.greeting, [], copy.lead, [], [], copy.action, [], [], (copyFor p.locale).linkFallback,
    p.verificationUrl, [], copy.closing, [], productName, [], []]

def InvitationEmailParams.sentences (p : InvitationEmailParams) : List JsString :=
  let copy := (copyFor p.locale).invitation
  [[], copy.heading (singleLine p.workspaceName), [], p.lead, [], [], copy.action, [], [],
    (copyFor p.locale).linkFallback, p.acceptUrl, [], copy.note, [], copy.closing, [], productName, [], []]

def VerificationEmailParams.lines (p : VerificationEmailParams) : List JsString :=
  let copy := (copyFor p.locale).verification
  [p.greeting, [], copy.lead, [], p.verificationUrl, [], copy.closing]

def InvitationEmailParams.lines (p : InvitationEmailParams) : List JsString :=
  let copy := (copyFor p.locale).invitation
  [p.lead, [], p.acceptUrl, [], copy.note, [], copy.closing]

theorem style_ne_href : style ≠ href := by simp [style, href, js]

theorem oneLine_productName : OneLine productName := oneLine_js rfl

theorem oneLine_verification (locale : Option Locale) : OneLine (copyFor locale).verification.lead ∧
    OneLine (copyFor locale).verification.greetingAnonymous ∧ OneLine (copyFor locale).verification.closing := by
  unfold copyFor
  cases locale.getD .en with
  | en =>
    exact ⟨((oneLine_js rfl).append oneLine_productName).append (oneLine_js rfl), oneLine_js rfl, oneLine_js rfl⟩
  | tr =>
    exact ⟨(oneLine_productName.append (oneLine_js rfl)).append (oneLine_js rfl), oneLine_js rfl, oneLine_js rfl⟩

theorem oneLine_greeting (p : VerificationEmailParams) : OneLine p.greeting := by
  have hname := oneLine_singleLine p.name
  unfold VerificationEmailParams.greeting
  dsimp only
  split
  · exact (oneLine_verification p.locale).2.1
  · unfold copyFor
    cases (some p.locale).getD Locale.en
    · exact ((oneLine_js rfl).append hname).append (oneLine_js rfl)
    · exact ((oneLine_js rfl).append hname).append (oneLine_js rfl)

theorem oneLine_invitation (locale : Option Locale) :
    OneLine (copyFor locale).invitation.note ∧ OneLine (copyFor locale).invitation.closing := by
  unfold copyFor
  cases locale.getD .en with
  | en => exact ⟨(oneLine_js rfl).append (oneLine_js rfl), oneLine_js rfl⟩
  | tr => exact ⟨(oneLine_js rfl).append (oneLine_js rfl), oneLine_js rfl⟩

theorem oneLine_lead (p : InvitationEmailParams) : OneLine p.lead := by
  have hinviter := oneLine_singleLine p.inviterName
  have hworkspace := oneLine_singleLine p.workspaceName
  unfold InvitationEmailParams.lead copyFor
  dsimp only
  cases (some p.locale).getD Locale.en
  · split
    · exact ((((oneLine_js rfl).append hworkspace).append (oneLine_js rfl)).append
        oneLine_productName).append (oneLine_js rfl)
    · exact ((((hinviter.append (oneLine_js rfl)).append hworkspace).append (oneLine_js rfl)).append
        oneLine_productName).append (oneLine_js rfl)
  · split
    · exact ((oneLine_productName.append (oneLine_js rfl)).append hworkspace).append (oneLine_js rfl)
    · exact ((((hinviter.append (oneLine_js rfl)).append oneLine_productName).append
        (oneLine_js rfl)).append hworkspace).append (oneLine_js rfl)

/-- Every part of the text but the address is one line. -/
theorem oneLine_verification_lines (p : VerificationEmailParams) :
    ∀ part ∈ p.lines, part = p.verificationUrl ∨ OneLine part := by
  obtain ⟨hlead, -, hclosing⟩ := oneLine_verification p.locale
  simp only [VerificationEmailParams.lines, List.mem_cons, List.not_mem_nil, or_false, forall_eq_or_imp,
    forall_eq]
  exact ⟨.inr (oneLine_greeting p), .inr rfl, .inr hlead, .inr rfl, .inl trivial, .inr rfl, .inr hclosing⟩

theorem oneLine_invitation_lines (p : InvitationEmailParams) :
    ∀ part ∈ p.lines, part = p.acceptUrl ∨ OneLine part := by
  obtain ⟨hnote, hclosing⟩ := oneLine_invitation p.locale
  simp only [InvitationEmailParams.lines, List.mem_cons, List.not_mem_nil, or_false, forall_eq_or_imp, forall_eq]
  exact ⟨.inr (oneLine_lead p), .inr rfl, .inl trivial, .inr rfl, .inr hnote, .inr rfl, .inr hclosing⟩

/-- The address on a line of its own leaves the others as they are. -/
theorem splitOn_join {parts : List JsString} {url : JsString} (h : ∀ part ∈ parts, part = url ∨ OneLine part)
    (hne : parts ≠ []) (hurl : newline ∉ url) : ([newline].intercalate parts).splitOn newline = parts := by
  refine List.splitOn_intercalate newline (fun part hpart => ?_) hne
  rcases h part hpart with rfl | hline
  · exact hurl
  · exact hline.newline_not_mem

theorem lines_join_url {parts : List JsString} {url : JsString}
    (h : ∀ part ∈ parts, part = url ∨ OneLine part) (hne : parts ≠ [])
    (hurl : ∀ c ∈ url, isLineTerminator c = false) : lines ([newline].intercalate parts) = parts := by
  refine lines_join (fun part hpart => ?_) hne
  rcases h part hpart with rfl | hline
  · exact oneLine_iff.mpr hurl
  · exact hline

theorem shaped_verification : Shaped buildVerificationEmail VerificationEmailParams.verificationUrl
    VerificationEmailParams.sentences VerificationEmailParams.lines where
  frame p q := by
    refine ⟨_, ?_, by unfold frame; rw [read_verification]; rfl⟩
    unfold frame
    rw [read_verification]
    simp [VerificationEmailParams.items, documentItems, paragraph, actionItems, opening, closing, style_ne_href]
  texts p := by
    unfold texts
    rw [read_verification]
    simp [VerificationEmailParams.items, VerificationEmailParams.sentences, documentItems, paragraph,
      actionItems, opening, closing, Html.unescape_escape]
    rfl
  hrefs p := by
    unfold hrefs
    rw [read_verification]
    simp [VerificationEmailParams.items, documentItems, paragraph, actionItems, opening, closing,
      style_ne_href, Html.unescape_escape]
  subject p := oneLine_iff.mp (oneLine_singleLine _)
  text p hurl := splitOn_join (oneLine_verification_lines p) (List.cons_ne_nil _ _) hurl
  lines p hurl := lines_join_url (oneLine_verification_lines p) (List.cons_ne_nil _ _) hurl
  number _ _ := rfl

theorem shaped_invitation : Shaped buildInvitationEmail InvitationEmailParams.acceptUrl
    InvitationEmailParams.sentences InvitationEmailParams.lines where
  frame p q := by
    refine ⟨_, ?_, by unfold frame; rw [read_invitation]; rfl⟩
    unfold frame
    rw [read_invitation]
    simp [InvitationEmailParams.items, documentItems, paragraph, actionItems, opening, closing, style_ne_href]
  texts p := by
    unfold texts
    rw [read_invitation]
    simp [InvitationEmailParams.items, InvitationEmailParams.sentences, documentItems, paragraph,
      actionItems, opening, closing, Html.unescape_escape]
    rfl
  hrefs p := by
    unfold hrefs
    rw [read_invitation]
    simp [InvitationEmailParams.items, documentItems, paragraph, actionItems, opening, closing,
      style_ne_href, Html.unescape_escape]
  subject p := oneLine_iff.mp (oneLine_singleLine _)
  text p hurl := splitOn_join (oneLine_invitation_lines p) (List.cons_ne_nil _ _) hurl
  lines p hurl := lines_join_url (oneLine_invitation_lines p) (List.cons_ne_nil _ _) hurl
  number _ _ := rfl

/-- User text changes what a mail says, and neither its tags, nor its subject line, nor its lines. -/
theorem mails_shaped :
    Shaped buildVerificationEmail VerificationEmailParams.verificationUrl VerificationEmailParams.sentences
        VerificationEmailParams.lines ∧
      Shaped buildInvitationEmail InvitationEmailParams.acceptUrl InvitationEmailParams.sentences
        InvitationEmailParams.lines :=
  ⟨shaped_verification, shaped_invitation⟩

end Mails

end Mail
end Kurul
