import DollMachine.Users.Text

/-!
# One phone

The activities of the app on one phone, as far as they touch the user data: the stack of started
activities, the requests under way, and what each callback does (`Device.act`).  A callback that
throws ends the process (`Device.crash`).

The completion listeners of `signInWithEmailAndPassword` and `createUserWithEmailAndPassword` are
scoped to the activity that made the request: they are dropped when it stops (`attached`), while the
account that the service returned becomes the current one all the same.  The listener that
`loadUserList` registers belongs to the process.
-/

namespace DollMachine

/-- A row of a list of machines: "機台編號：`machineNum`", "管理者：`email`". -/
structure Row where
  machineNum : Int
  email : Option String
deriving DecidableEq

/-- `MasterActivity`: the rows of its last `layoutListView`, with the position-to-machine map that
the item listener captured, and the row an open dialog is about. -/
structure Master where
  user : User
  rows : List Row
  dialog : Option Row

/-- A started activity; a saved one is yet to be created anew after the process died. -/
inductive Screen
  | login
  | master (m : Master)
  | slave (user : User)
  | signUp
  | manageStatus (userMachineNum : Int)
  | savedMaster
  | savedSlave

/-- A `signInWithEmailAndPassword` request under way. -/
structure SignIn where
  email : String
  attached : Bool
deriving DecidableEq

/-- A `createUserWithEmailAndPassword` request under way, with the texts that its listener holds.
`created` is the answer of the service, once there is one. -/
structure SignUp where
  email : String
  phone : String
  machineNum : String
  attached : Bool
  created : Option Bool
deriving DecidableEq

structure Device where
  userManager : UserManager
  /-- `FirebaseInstanceId.getInstance().getToken()`. -/
  token : Option String
  screens : List Screen
  signIns : List SignIn
  signUps : List SignUp
  /-- The `loadUserList` requests that the database has yet to answer. -/
  requests : Nat
  /-- The answers on their way to `onDataChange`. -/
  answers : List UserTree

/-- The services: the addresses that have an account, and the `user` tree of the database. -/
structure Server where
  accounts : List String
  user : UserTree

/-- What a phone makes a service do. -/
inductive Remote
  | createAccount (address : String)
  | updateUserData (user : User)
  | updateToken (machineNum : Int) (token : Option String)
  | removeUserData (machineNum : Int)
deriving DecidableEq

def Server.apply (s : Server) : Remote → Server
  | .createAccount address => { s with accounts := address :: s.accounts }
  | .updateUserData user => { s with user := s.user.updateUserData user }
  | .updateToken machineNum token => { s with user := s.user.updateToken machineNum token }
  | .removeUserData machineNum => { s with user := s.user.removeUserData machineNum }

/-- What can happen on a phone. -/
inductive Act
  /-- Start the app from the launcher while none of its activities is started. -/
  | launch
  | back
  /-- The activity on top stops: another app comes to the front. -/
  | stop
  | loginClick (email pwd : String)
  /-- The answer to the `i`-th sign-in request. -/
  | signInComplete (i : Nat) (ok : Bool)
  /-- The database answers a `loadUserList` request with its current content. -/
  | answer
  | onDataChange (i : Nat)
  | onCancelled
  /-- `reloadBtn` of `MasterActivity` or `SlaveActivity`. -/
  | reloadClick
  | signUpMenu
  | signUpClick (email phone machineNum : String)
  /-- The service handles the `i`-th `createUserWithEmailAndPassword` request; `ok` is whether it
  finds no other fault than an account with the same address. -/
  | createUser (i : Nat) (ok : Bool)
  /-- The answer to the `i`-th such request. -/
  | signUpComplete (i : Nat)
  | signOut
  /-- A row of the list of `MasterActivity` is clicked, which opens the dialogs. -/
  | itemClick (position : Nat)
  | showStatus
  | callConfirm
  | removeConfirm
  /-- Android creates the activity on top anew: after a rotation, or in a new process. -/
  | recreate
  /-- The process dies in the background. -/
  | kill
  | tokenRefresh (token : Option String)
deriving DecidableEq

/-- The two activities a login can open. -/
inductive Home
  | master
  | slave
deriving DecidableEq

/-- `layoutListView` of `MasterActivity`. -/
def layoutListView (userList : List User) : List Row :=
  userList.map fun u => ⟨u.machineNum, u.email⟩

def Screen.save : Screen → Screen
  | .master _ => .savedMaster
  | .slave _ => .savedSlave
  | screen => screen

namespace Device

/-- The activity on top stops: the listeners scoped to it are dropped. -/
def detach (dev : Device) : Device :=
  { dev with
    signIns := dev.signIns.map fun p => { p with attached := false }
    signUps := dev.signUps.map fun p => { p with attached := false } }

/-- The process ends; what remains is the session that `FirebaseAuth` keeps, and the token. -/
def exit (dev : Device) (screens : List Screen) : Device :=
  ⟨⟨none, [], dev.userManager.auth⟩, dev.token, screens, [], [], 0, []⟩

/-- An uncaught exception: Android drops the activity on top and keeps those below it. -/
def crash (dev : Device) : Device := dev.exit (dev.screens.tail.map Screen.save)

def setAuth (dev : Device) (address : String) : Device :=
  { dev with userManager := { dev.userManager with auth := some address } }

/-- The field initialiser `user = userManager.getCurrentUser()` and `onCreate` of `MasterActivity`
and `SlaveActivity`, on top of `rest`. -/
def onCreate (dev : Device) (home : Home) (rest : List Screen) : Device × Option Remote :=
  match dev.userManager.currentUser with
  | .error _ => (dev.crash, none)
  | .ok (user, m) =>
    let screen : Screen := match home with
      | .master => .master ⟨user, layoutListView m.userList, none⟩
      | .slave => .slave user
    ({ dev with userManager := m, screens := screen :: rest },
      some (.updateToken user.machineNum dev.token))

/-- `onComplete` of a successful login. -/
def loginComplete (dev : Device) (rest : List Screen) : Device × Option Remote :=
  match dev.userManager.currentUser with
  | .error _ => (dev.crash, none)
  | .ok (user, m) =>
    { dev with userManager := m }.detach.onCreate (if user.right = 2 then .master else .slave) rest

/-- The check at the start of `signUp`: no cached user has the machine number that was typed. -/
def machineNumFree (dev : Device) (machineNum : String) : Bool :=
  dev.userManager.userList.all fun u => valueOf u.machineNum ≠ machineNum

/-- The listener of `signUpBtn`, with `signUp` up to the request for the account. -/
def signUpClick (dev : Device) (email phone machineNum : String) : Device :=
  let email := trim email
  let phone := trim phone
  let machineNum := trim machineNum
  if email = "" ∨ phone = "" ∨ machineNum = "" then dev
  else if dev.machineNumFree machineNum then
    { dev with signUps := dev.signUps ++ [⟨email, phone, machineNum, true, none⟩] }
  else dev

/-- `onComplete` of a successful sign-up. -/
def signUpComplete (dev : Device) (p : SignUp) : Device × Option Remote :=
  match parseInt p.machineNum with
  | .error _ => (dev.crash, none)
  | .ok n => (dev, some (.updateUserData ⟨1, n, some p.phone, none, some p.email⟩))

/-- The phone number that the call dialog dials, if any. -/
def phoneToCall (dev : Device) (row : Row) : Except JavaException (Option String) :=
  match findByMachineNum row.machineNum dev.userManager.userList with
  | none => .error .nullPointer
  | some u => .ok u.phone

/-- What an event does on the phone, and what it makes a service do; `none` when it cannot happen.
`address` is the address that the authentication service gives an account made with an email. -/
def act (address : String → String) (server : Server) (dev : Device) :
    Act → Option (Device × Option Remote)
  | .launch =>
    match dev.screens with
    | [] => some ({ dev with screens := [.login] }, none)
    | _ => none
  | .back =>
    match dev.screens with
    | [] => none
    | _ :: rest => some ({ dev.detach with screens := rest }, none)
  | .stop => some (dev.detach, none)
  | .loginClick email pwd =>
    match dev.screens with
    | .login :: _ =>
      let dev := { dev with requests := dev.requests + 1 }
      if email = "" ∨ pwd = "" then some (dev, none)
      else some ({ dev with signIns := dev.signIns ++ [⟨email, true⟩] }, none)
    | _ => none
  | .signInComplete i ok =>
    match dev.signIns[i]? with
    | none => none
    | some p =>
      let dev := { dev with signIns := dev.signIns.eraseIdx i }
      if ok then
        if address p.email ∈ server.accounts then
          let dev := dev.setAuth (address p.email)
          match p.attached, dev.screens with
          | true, .login :: rest => some (dev.loginComplete rest)
          | _, _ => some (dev, none)
        else none
      else some (dev, none)
  | .answer =>
    match dev.requests with
    | 0 => none
    | n + 1 => some ({ dev with requests := n, answers := dev.answers ++ [server.user] }, none)
  | .onDataChange i =>
    match dev.answers[i]? with
    | none => none
    | some snapshot =>
      some ({ dev with
        userManager := dev.userManager.onDataChange snapshot
        answers := dev.answers.eraseIdx i }, none)
  | .onCancelled =>
    match dev.requests with
    | 0 => none
    | n + 1 => some ({ dev with requests := n }, none)
  | .reloadClick =>
    match dev.screens with
    | .master m :: rest =>
      let m := { m with rows := layoutListView dev.userManager.userList }
      some ({ dev with requests := dev.requests + 1, screens := .master m :: rest }, none)
    | .slave _ :: _ =>
      match dev.userManager.currentUser with
      | .error _ => some (dev.crash, none)
      | .ok (_, m) => some ({ dev with userManager := m }, none)
    | _ => none
  | .signUpMenu =>
    match dev.screens with
    | .master m :: rest => some ({ dev with screens := .signUp :: .master m :: rest }, none)
    | _ => none
  | .signUpClick email phone machineNum =>
    match dev.screens with
    | .signUp :: _ => some (dev.signUpClick email phone machineNum, none)
    | _ => none
  | .createUser i ok =>
    match dev.signUps[i]? with
    | none => none
    | some p =>
      match p.created with
      | some _ => none
      | none =>
        if ok ∧ address p.email ∉ server.accounts then
          some ({ dev with signUps := dev.signUps.set i { p with created := some true } },
            some (.createAccount (address p.email)))
        else some ({ dev with signUps := dev.signUps.set i { p with created := some false } }, none)
  | .signUpComplete i =>
    match dev.signUps[i]? with
    | none => none
    | some p =>
      let dev := { dev with signUps := dev.signUps.eraseIdx i }
      match p.created with
      | none => none
      | some false => some (dev, none)
      | some true =>
        let dev := dev.setAuth (address p.email)
        match p.attached, dev.screens with
        | true, .signUp :: _ => some (dev.signUpComplete p)
        | _, _ => some (dev, none)
  | .signOut =>
    match dev.screens with
    | .master _ :: rest | .slave _ :: rest =>
      some ({ dev.detach with
        userManager := dev.userManager.signOut
        screens := .login :: rest }, none)
    | _ => none
  | .itemClick position =>
    match dev.screens with
    | .master m :: rest =>
      match m.rows[position]? with
      | none => none
      | some row =>
        some ({ dev with screens := .master { m with dialog := some row } :: rest }, none)
    | _ => none
  | .showStatus =>
    match dev.screens with
    | .master ⟨user, rows, some row⟩ :: rest =>
      some ({ dev with
        screens := .manageStatus row.machineNum :: .master ⟨user, rows, none⟩ :: rest }, none)
    | _ => none
  | .callConfirm =>
    match dev.screens with
    | .master ⟨user, rows, some row⟩ :: rest =>
      match dev.phoneToCall row with
      | .error _ => some (dev.crash, none)
      | .ok _ => some ({ dev with screens := .master ⟨user, rows, none⟩ :: rest }, none)
    | _ => none
  | .removeConfirm =>
    match dev.screens with
    | .master ⟨user, rows, some row⟩ :: rest =>
      some ({ dev with
        requests := dev.requests + 1
        screens := .master ⟨user, rows, none⟩ :: rest },
        some (.removeUserData row.machineNum))
    | _ => none
  | .recreate =>
    match dev.screens with
    | .master _ :: rest | .savedMaster :: rest => some (dev.detach.onCreate .master rest)
    | .slave _ :: rest | .savedSlave :: rest => some (dev.detach.onCreate .slave rest)
    | _ => some (dev.detach, none)
  | .kill => some (dev.exit (dev.screens.map Screen.save), none)
  | .tokenRefresh token => some ({ dev with token := token }, none)

end Device

end DollMachine
