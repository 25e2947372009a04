/-!
# Example programs

Short programs to load into the workbench, each under a name.
-/

namespace LongMode.Workbench

def examples : List (String × String) :=
  [("Add", "    mov rax, 10     ; rax = 10
    add rax, 5      ; rax = 15"),
    ("Aliasing", "    mov rax, -1     ; rax = 0xffffffffffffffff
    mov eax, 1      ; 32-bit write zero-extends
    mov ah, 0x12    ; ah is bits 8..15 of rax
    mov ax, 0xbeef  ; 16-bit write keeps the upper bits"),
    ("Stack", "    mov rax, 0x1122334455667788
    push rax
    push 42
    pop rbx         ; rbx = 42
    pop rcx         ; rcx = rax"),
    ("Flags", "    mov al, 0xf0
    and al, 0x0f    ; ZF=1
    mov bl, 0x7f
    add bl, 1       ; OF=1 SF=1
    xor ecx, ecx
    sub ecx, 1      ; CF=1"),
    ("Divide", "    mov rax, 100
    xor edx, edx
    mov rbx, 7
    div rbx         ; rax = 14, rdx = 2
    mov rcx, 0
    div rcx         ; divide by zero: run stops here
    mov rsi, 1      ; never executed"),
    ("Custom", "")]

/-- The example of a given name; nothing under any other name. -/
def exampleNamed (name : String) : String := (examples.lookup name).getD ""

end LongMode.Workbench
