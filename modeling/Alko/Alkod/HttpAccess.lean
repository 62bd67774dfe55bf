import Alko.Alkod.HttpHandler

/-! Who gets past the administration pages' authorization. -/

namespace Alko.Alkod

open Qt

namespace HttpHandler

open QString (literal)

variable {e : HttpEnvironment} {h : HttpHandler} {rx : List UInt8}

def requestHeaders (rx : List UInt8) : QString → Option QString :=
  readHeaders (completeLines (behindLine rx)).1

def Unauthorized (rx : List UInt8) : Prop :=
  (requestHeaders rx (literal "authorization")).getD [] ≠ authorization

/-- Nothing for the machine, and nothing for the client but an error. -/
def Refused (h : HttpHandler) : Prop :=
  h.gets = [] ∧ (h.written = [] ∨ h.written = badRequest ∨ h.written = unauthorized)

def resourceOf (resource : QString) : QString :=
  if resource = [] then literal "index.html" else resource

/-- A resource that makes serial requests: the page that asks for the state, and any page that is
posted an action. -/
def Asks (rx : List UInt8) (resource : QString) : Method → Prop
  | .get => resource = literal "check_status.html"
  | .post => (actionRequest (postedAction rx)).isSome

/-- The request passes every check that does stop the flow, and asks for something; what a POST
says is read from a socket that is closed by then. -/
def PassesOn (e : HttpEnvironment) (rx : List UInt8) : Prop :=
  canReadLine rx ∧ (requestHeaders rx (literal "host")).isSome ∧
    ∃ method resource, requestLine (QString.ofByteArray (firstLine rx)) = some (method, resource) ∧
      e.fileExists (resourceOf resource) ∧ QString.right 3 (resourceOf resource) ≠ literal "css" ∧
      Asks (e.unread (completeLines (behindLine rx)).2) (resourceOf resource) method

theorem written_write (hclosed : h.isOpen = false) (output : List Output) : h.write output = h := by
  rw [write, hclosed, if_neg (by decide)]

theorem close_of_closed (hclosed : h.isOpen = false) : h.close e = h := by
  rw [close, hclosed, if_neg (by decide)]

def asked (rx : List UInt8) (resource : QString) : Method → List (List UInt8)
  | .get =>
    if resource = literal "check_status.html" then [[Cmd.getConfig.toByte], [Cmd.getState.toByte]]
    else []
  | .post => (actionRequest (postedAction rx)).toList

theorem asked_eq_nil_iff (rx : List UInt8) (resource : QString) (method : Method) :
    asked rx resource method = [] ↔ ¬Asks rx resource method := by
  cases method with
  | get =>
    unfold asked Asks
    split_ifs with hstatus
    · exact ⟨fun h => absurd h (by simp), fun h => absurd hstatus h⟩
    · exact ⟨fun _ => hstatus, fun _ => rfl⟩
  | post =>
    unfold asked Asks
    cases actionRequest (postedAction rx) with
    | none => simp
    | some request => simp

theorem handlePost_spec (resource : QString) (context : List (QString × QString)) :
    (h.handlePost resource context).2.2.gets = h.gets ++ asked h.rx resource .post ∧
      (h.handlePost resource context).2.2.isOpen = h.isOpen ∧
      (h.handlePost resource context).2.2.written = h.written := by
  unfold handlePost asked
  by_cases haction : postedAction h.rx = []
  · have hnone : actionRequest [] = none := by decide
    simp only [haction, if_true, hnone, Option.toList_none, List.append_nil, and_self]
  · simp only [if_neg haction]
    cases actionRequest (postedAction h.rx) with
    | none => simp
    | some request => simp

theorem handleGet_spec (resource : QString) (context : List (QString × QString)) :
    (h.handleGet resource context).2.2.gets = h.gets ++ asked h.rx resource .get ∧
      (h.handleGet resource context).2.2.isOpen = h.isOpen ∧
      (h.handleGet resource context).2.2.written = h.written := by
  unfold handleGet asked
  by_cases hstatus : resource = literal "status.html"
  · have hother : literal "status.html" ≠ literal "check_status.html" := by decide
    simp only [hstatus, if_true, if_neg hother, List.append_nil, and_self]
  · by_cases hcheck : resource = literal "check_status.html"
    · simp only [if_neg hstatus, if_pos hcheck, get, List.append_assoc, List.cons_append,
        List.nil_append, and_self]
    · simp only [if_neg hstatus, if_neg hcheck, List.append_nil, and_self]

theorem gets_write (output : List Output) (h : HttpHandler) : (h.write output).gets = h.gets := by
  unfold write
  split_ifs <;> rfl

theorem rx_write (output : List Output) (h : HttpHandler) : (h.write output).rx = h.rx := by
  unfold write
  split_ifs <;> rfl

theorem gets_close (h : HttpHandler) : (h.close e).gets = h.gets := by
  unfold close
  split_ifs <;> rfl

theorem gets_handleResource (h : HttpHandler) (method : Method) (resource host : QString) :
    (h.handleResource e method resource host).gets = h.gets ++
      if e.fileExists resource ∧ QString.right 3 resource ≠ literal "css" then
        asked h.rx resource method
      else [] := by
  unfold handleResource
  by_cases hexists : e.fileExists resource
  · by_cases hcss : QString.right 3 resource = literal "css"
    · simp [hexists, hcss, gets_write, gets_close]
    · simp only [hexists, hcss, Bool.not_true, Bool.false_eq_true, if_false, ne_eq,
        not_false_eq_true, and_self, if_true]
      cases method with
      | post => simp only [gets_close, gets_write, (handlePost_spec _ _).1, rx_write]
      | get => simp only [gets_close, gets_write, (handleGet_spec _ _).1, rx_write]
  · simp [hexists, error_404, gets_write, gets_close]

/-- Behind a closed socket a page still asks the machine, and nobody sees it. -/
theorem handleResource_closed (hclosed : h.isOpen = false) (method : Method)
    (resource host : QString) :
    (h.handleResource e method resource host).written = h.written := by
  unfold handleResource
  by_cases hexists : e.fileExists resource
  · by_cases hcss : QString.right 3 resource = literal "css"
    · simp [hexists, hcss, written_write hclosed, close_of_closed hclosed]
    · simp only [hexists, hcss, written_write hclosed, Bool.not_true, Bool.false_eq_true, if_false]
      cases method with
      | post =>
        have hspec := handlePost_spec (h := h) resource
        rw [written_write ((hspec _).2.1.trans hclosed),
          close_of_closed ((hspec _).2.1.trans hclosed)]
        exact (hspec _).2.2
      | get =>
        have hspec := handleGet_spec (h := h) resource
        rw [written_write ((hspec _).2.1.trans hclosed),
          close_of_closed ((hspec _).2.1.trans hclosed)]
        exact (hspec _).2.2
  · simp [hexists, error_404, written_write hclosed, close_of_closed hclosed]

theorem readyRead_new (hline : canReadLine rx = true) :
    (new rx).readyRead e =
      match requestLine (QString.ofByteArray (firstLine rx)) with
      | none => HttpHandler.close e ⟨behindLine rx, true, [], []⟩
      | some (method, resource) =>
        let h : HttpHandler := ⟨(completeLines (behindLine rx)).2, true, [], []⟩
        match requestHeaders rx (literal "host") with
        | none => h.error_400 e
        | some host =>
          if (requestHeaders rx (literal "authorization")).getD [] = authorization then
            h.handleResource e method (resourceOf resource) host
          else
            ((h.write unauthorized).close e).handleResource e method (resourceOf resource) host := by
  simp only [readyRead, new, hline, Bool.not_true, Bool.false_eq_true, if_false]
  cases requestLine (QString.ofByteArray (firstLine rx)) with
  | none => rfl
  | some request =>
    cases hhost : requestHeaders rx (literal "host") with
    | none =>
      have hnamed : readHeaders (completeLines (behindLine rx)).1 (literal "host") = none := hhost
      simp only [hnamed]
    | some host =>
      have hnamed : readHeaders (completeLines (behindLine rx)).1 (literal "host") = some host :=
        hhost
      simp only [hnamed]
      rfl

theorem readyRead_unauthorized (h : Unauthorized rx) {method : Method} {resource host : QString}
    (hline : canReadLine rx)
    (hrequest : requestLine (QString.ofByteArray (firstLine rx)) = some (method, resource))
    (hhost : requestHeaders rx (literal "host") = some host) :
    (new rx).readyRead e =
      HttpHandler.handleResource e method (resourceOf resource) host
        ⟨e.unread (completeLines (behindLine rx)).2, false, unauthorized, []⟩ := by
  rw [readyRead_new hline, hrequest]
  simp only [hhost]
  exact if_neg h

theorem refused_iff (h : Unauthorized rx) : Refused ((new rx).readyRead e) ↔ ¬PassesOn e rx := by
  by_cases hline : canReadLine rx
  · cases hrequest : requestLine (QString.ofByteArray (firstLine rx)) with
    | none =>
      rw [readyRead_new hline, hrequest]
      simp [Refused, PassesOn, hrequest, close]
    | some request =>
      obtain ⟨method, resource⟩ := request
      cases hhost : requestHeaders rx (literal "host") with
      | none =>
        rw [readyRead_new hline, hrequest]
        simp [Refused, PassesOn, hhost, error_400, write, close]
      | some host =>
        rw [readyRead_unauthorized h hline hrequest hhost, Refused, handleResource_closed rfl,
          gets_handleResource]
        have hasked := asked_eq_nil_iff (e.unread (completeLines (behindLine rx)).2)
          (resourceOf resource) method
        simp only [PassesOn, hline, hhost, hrequest, Option.isSome_some, true_and, or_true,
          and_true, List.nil_append, Option.some.injEq, Prod.mk.injEq]
        split_ifs with hserved
        · rw [hasked, not_iff_not]
          constructor
          · exact fun hasks => ⟨method, resource, ⟨rfl, rfl⟩, hserved.1, hserved.2, hasks⟩
          · rintro ⟨_, _, ⟨rfl, rfl⟩, -, -, hasks⟩
            exact hasks
        · refine iff_of_true rfl ?_
          rintro ⟨_, _, ⟨rfl, rfl⟩, hexists, hcss, -⟩
          exact hserved ⟨hexists, hcss⟩
  · simp [hline, readyRead, new, Refused, PassesOn]

/-- Without the credentials a request is refused, and one as much as another, exactly when it does
not pass the checks that stop the flow: the 401 is not one of them. -/
theorem access_control_iff {rx' : List UInt8} (h : Unauthorized rx) (h' : Unauthorized rx') :
    Refused ((new rx).readyRead e) ∧ Refused ((new rx').readyRead e) ∧
        ((new rx).readyRead e).gets = ((new rx').readyRead e).gets ↔
      ¬PassesOn e rx ∧ ¬PassesOn e rx' := by
  rw [← refused_iff h, ← refused_iff h']
  constructor
  · exact fun hrefused => ⟨hrefused.1, hrefused.2.1⟩
  · exact fun hrefused => ⟨hrefused.1, hrefused.2, hrefused.1.1.trans hrefused.2.1.symm⟩

def packaged : HttpEnvironment where
  fileExists resource := resource ∈ ["index.html", "log.html", "process.html", "admin.html",
    "rawlog.html", "logout.html", "400.html", "404.html", "footer.html.inc", "nav.html.inc",
    "header1.html.inc", "header2.html.inc", "status.html", "check_status.html"].map literal
  unread _ := []
  currentDateTime := literal "Mon May 12 20:15:00 2014"

def request (resource : String) : List UInt8 :=
  (literal ("GET /" ++ resource ++ " HTTP/1.1\r\nHost: alko\r\n\r\n")).toLatin1

theorem access_control_missed :
    Unauthorized (request "check_status.html") ∧
      ¬Refused ((new (request "check_status.html")).readyRead packaged) := by
  have hnone : (requestHeaders (request "check_status.html") (literal "authorization")).getD [] ≠
      authorization := by decide +kernel
  have hgets : ((new (request "check_status.html")).readyRead packaged).gets =
      [[Cmd.getConfig.toByte], [Cmd.getState.toByte]] := by decide +kernel
  refine ⟨hnone, fun hrefused => ?_⟩
  rw [Refused, hgets] at hrefused
  exact absurd hrefused.1 (by decide)

theorem access_control_iff_page :
    Refused ((new (request "status.html")).readyRead packaged) ∧
        Refused ((new (request "admin.html")).readyRead packaged) ∧
        ((new (request "status.html")).readyRead packaged).gets =
          ((new (request "admin.html")).readyRead packaged).gets ↔
      ¬PassesOn packaged (request "status.html") ∧ ¬PassesOn packaged (request "admin.html") :=
  access_control_iff (show (requestHeaders _ _).getD [] ≠ authorization by decide +kernel)
    (show (requestHeaders _ _).getD [] ≠ authorization by decide +kernel)

end HttpHandler

end Alko.Alkod
